import Makaos.Mm.Vma

/-!
`mm_vma_remove` as an operation on the address map.

* `Vma.pieces`: what is left of one VMA; `removeLoop_eq`: the loop replaces every VMA by its pieces.
* `mm_vma_remove_exact`: the range is removed and the rest of the map is kept, exactly if no
  allocation of a split fails and no VMA with a backing loses its head.
* `head_trim_shifts_file`: a file-backed VMA that loses its head shows other bytes of the file.
-/

namespace Makaos

open Vma IntervalList List Option Nat

variable {ks : Outcomes} {vmas rest : List Vma} {v : Vma} {start stop addr : ℕ} {ok : Bool}

/-! ### The loop -/

/-- What the loop leaves of a VMA; `ok` is the outcome of the allocation for a split. -/
def Vma.pieces (ok : Bool) (start stop : ℕ) (v : Vma) : List Vma :=
  if v.start ≥ stop ∨ v.stop ≤ start then [v]
  else if v.start ≥ start ∧ v.stop ≤ stop then []
  else if v.start < start ∧ v.stop > stop then
    if ok then [v.trimTail start, v.rightPart stop] else [v]
  else if v.start < start then [v.trimTail start]
  else [v.trimHead stop]

lemma removeLoop_of_above (h : ∀ w ∈ vmas, stop ≤ w.start) :
    removeLoop start stop ks vmas = (false, vmas, ks) := by
  induction vmas with
  | nil => rfl
  | cons v rest ih =>
    rw [removeLoop, if_pos (.inl (h v mem_cons_self)), ih fun w hw => h w (mem_cons_of_mem _ hw)]

/-- Without a VMA to split nothing is allocated. -/
lemma removeLoop_outcomes (h : ∀ v ∈ vmas, ¬ (v.start < start ∧ v.stop > stop)) :
    (removeLoop start stop ks vmas).2.2 = ks := by
  induction vmas with
  | nil => rfl
  | cons v rest ih =>
    have hrest := ih fun w hw => h w (mem_cons_of_mem _ hw)
    rw [removeLoop, if_neg (h v mem_cons_self)]
    split
    · exact hrest
    · split
      · exact hrest
      · split
        case isTrue | isFalse => exact hrest

lemma flatMap_pieces_of_above (h : ∀ w ∈ vmas, stop ≤ w.start) :
    vmas.flatMap (pieces ok start stop) = vmas := by
  induction vmas with
  | nil => rfl
  | cons v rest ih =>
    rw [flatMap_cons, ih fun w hw => h w (mem_cons_of_mem _ hw), pieces,
      if_pos (.inl (h v mem_cons_self))]
    rfl

/-- **The loop** replaces every VMA by its pieces.  At most one VMA is split, since the others
above it lie above the range, so the outcome of the first allocation decides. -/
lemma removeLoop_eq (h : IntervalList.Ordered Vma.start Vma.stop vmas) :
    (removeLoop start stop ks vmas).2.1 = vmas.flatMap (pieces ks.next.1 start stop) := by
  induction vmas with
  | nil => rfl
  | cons v rest ih =>
    have hrest := ih h.tail
    rw [removeLoop, flatMap_cons, pieces]
    split
    · simp [hrest]
    · split
      · simp [hrest]
      · split
        next hsplit =>
          have habove : ∀ w ∈ rest, stop ≤ w.start :=
            fun w hw => hsplit.2.le.trans (h.head_le hw)
          rw [flatMap_pieces_of_above habove]
          cases hk : ks.next with
          | mk ok ks' => cases ok <;> simp [removeLoop_of_above habove]
        · split <;> simp [hrest]

/-! ### The pieces of a VMA -/

/-- The ways in which the range can meet a VMA, and what is left of it. -/
inductive Vma.Cut (ok : Bool) (start stop : ℕ) (v : Vma) : List Vma → Prop
  | outside : stop ≤ v.start ∨ v.stop ≤ start → v.Cut ok start stop [v]
  | covered : start ≤ v.start → v.stop ≤ stop → v.Cut ok start stop []
  | split : v.start < start → stop < v.stop → ok = true →
      v.Cut ok start stop [v.trimTail start, v.rightPart stop]
  | splitFails : v.start < start → stop < v.stop → ok = false → v.Cut ok start stop [v]
  | tail : v.start < start → start < v.stop → v.stop ≤ stop → v.Cut ok start stop [v.trimTail start]
  | head : start ≤ v.start → v.start < stop → stop < v.stop → v.Cut ok start stop [v.trimHead stop]

lemma cut_pieces (ok : Bool) (start stop : ℕ) (v : Vma) :
    v.Cut ok start stop (v.pieces ok start stop) := by
  rw [pieces]
  split
  next hout => exact .outside hout
  next hout =>
    push Not at hout
    split
    next hcov => exact .covered hcov.1 hcov.2
    next hcov =>
      split
      next hsplit =>
        cases ok with
        | false => exact .splitFails hsplit.1 hsplit.2 rfl
        | true => exact .split hsplit.1 hsplit.2 rfl
      next hsplit =>
        split_ifs with hlt
        · exact .tail hlt hout.2 (by omega)
        · exact .head (by omega) hout.1 (by omega)

/-- A piece lies inside the VMA, its ends are those of the VMA or of the range, and it is of the
same kind. -/
lemma pieces_spec (ok : Bool) (hlt : start < stop) (hne : v.start < v.stop) :
    IntervalList.Ordered Vma.start Vma.stop (v.pieces ok start stop) ∧
      ∀ w ∈ v.pieces ok start stop, (v.start ≤ w.start ∧ w.stop ≤ v.stop) ∧
        (w.start = v.start ∨ w.start = stop) ∧ (w.stop = v.stop ∨ w.stop = start) ∧
        w.flags = v.flags ∧ w.shmem = v.shmem := by
  have hcut := cut_pieces ok start stop v
  generalize v.pieces ok start stop = l at hcut ⊢
  cases hcut with
  | outside | splitFails =>
    refine ⟨ordered_singleton hne, forall_mem_singleton.mpr ?_⟩
    exact ⟨⟨le_rfl, le_rfl⟩, .inl rfl, .inl rfl, rfl, rfl⟩
  | covered => exact ⟨ordered_nil, by simp⟩
  | split h1 h2 _ =>
    refine ⟨⟨fun w hw => ?_, pairwise_pair.mpr hlt.le⟩, fun w hw => ?_⟩
    · rcases mem_pair.mp hw with rfl | rfl
      · exact h1
      · exact h2
    · rcases mem_pair.mp hw with rfl | rfl
      · exact ⟨⟨le_rfl, (hlt.trans h2).le⟩, .inl rfl, .inr rfl, rfl, rfl⟩
      · exact ⟨⟨(h1.trans hlt).le, le_rfl⟩, .inr rfl, .inl rfl, rfl, rfl⟩
  | tail h1 h2 _ =>
    refine ⟨ordered_singleton h1, forall_mem_singleton.mpr ?_⟩
    exact ⟨⟨le_rfl, h2.le⟩, .inl rfl, .inr rfl, rfl, rfl⟩
  | head _ h1 h2 =>
    refine ⟨ordered_singleton h2, forall_mem_singleton.mpr ?_⟩
    exact ⟨⟨h1.le, le_rfl⟩, .inr rfl, .inl rfl, rfl, rfl⟩

/-! ### The whole list -/

section Remove

variable (h : IntervalList.Ordered Vma.start Vma.stop vmas) (hlt : start < stop)
include h hlt

lemma mmVmaRemove_eq :
    (mmVmaRemove ks vmas start stop).2.1 = vmas.flatMap (pieces ks.next.1 start stop) := by
  rw [mmVmaRemove, if_neg (not_le.mpr hlt), removeLoop_eq h]

lemma mmVmaRemove_ordered :
    IntervalList.Ordered Vma.start Vma.stop (mmVmaRemove ks vmas start stop).2.1 := by
  have hspec := fun v hv => pieces_spec ks.next.1 hlt (h.nonempty v hv)
  rw [mmVmaRemove_eq h hlt]
  exact h.flatMap (fun v hv => (hspec v hv).1) fun v hv w hw => ((hspec v hv).2 w hw).1

/-- Finding an address is finding its VMA and then the piece. -/
lemma mmVmaFind_remove (addr : ℕ) : mmVmaFind (mmVmaRemove ks vmas start stop).2.1 addr =
      (mmVmaFind vmas addr).bind fun v => mmVmaFind (v.pieces ks.next.1 start stop) addr := by
  have hspec := fun v hv => pieces_spec ks.next.1 hlt (h.nonempty v hv)
  rw [mmVmaRemove_eq h hlt]
  exact IntervalList.lookup_flatMap h (fun v hv => (hspec v hv).1)
    fun v hv w hw => ((hspec v hv).2 w hw).1

end Remove

/-- **The list stays well formed**, whatever the allocations give. -/
lemma mmVmaRemove_isVmaList (h : IsVmaList vmas) (hlt : start < stop) (hs : PageAligned start)
    (he : PageAligned stop) : IsVmaList (mmVmaRemove ks vmas start stop).2.1 := by
  refine ⟨mmVmaRemove_ordered h.ordered hlt, fun w hw => ?_, fun w hw => ?_⟩
  all_goals
    rw [mmVmaRemove_eq h.ordered hlt] at hw
    obtain ⟨v, hv, hw⟩ := mem_flatMap.mp hw
    obtain ⟨⟨-, hhi⟩, hstart, hstop, -⟩ :=
      (pieces_spec ks.next.1 hlt (h.ordered.nonempty v hv)).2 w hw
  · obtain ⟨hal, hal'⟩ := h.aligned v hv
    constructor
    · rcases hstart with hstart | hstart <;> rwa [hstart]
    · rcases hstop with hstop | hstop <;> rwa [hstop]
  · exact hhi.trans_lt (h.bound v hv)

/-! ### The backing -/

/-- The VMA can lose its head up to `stop` and keep its backing: it has no file, and no shared
object unless the number of pages lost is zero as a `uint32_t`. -/
def Vma.HeadFree (v : Vma) (stop : ℕ) : Prop :=
  v.file = none ∧ (v.shmem = none ∨ (stop - v.start) / pageSize % 2 ^ 32 = 0)

instance (v : Vma) (stop : ℕ) : Decidable (v.HeadFree stop) := inferInstanceAs (Decidable (_ ∧ _))

/-- The right fragment of a split maps its addresses as the VMA did. -/
lemma mapping_rightPart (h1 : v.start ≤ stop) (h2 : stop ≤ addr) (hs : PageAligned v.start)
    (he : PageAligned stop) : (v.rightPart stop).mapping addr = v.mapping addr := by
  have hpages : (addr - v.start) / pageSize = (addr - stop) / pageSize +
      (stop - v.start) / pageSize := by
    simp only [PageAligned, pageSize] at *
    omega
  have hoff : addr - v.start = addr - stop + (stop - v.start) := by omega
  rw [mapping, mapping]
  congr 1
  · cases hf : v.file with
    | none => simp [rightPart, hf]
    | some f =>
      simp only [rightPart, hf, isSome_some, if_true, map_some, wrap]
      congr 3
      · omega
      · split <;> omega
  · cases ho : v.shmem with
    | none => simp [rightPart, ho]
    | some o =>
      simp only [rightPart, ho, map_some, hpages]
      congr 2
      omega

/-- A VMA that loses its head maps its first address as before exactly if it can. -/
lemma mapping_trimHead_iff (h1 : v.start < stop) (h2 : stop < 2 ^ 64) :
    (v.trimHead stop).mapping stop = v.mapping stop ↔ v.HeadFree stop := by
  rw [HeadFree, mapping, mapping, Mapping.mk.injEq]
  simp only [trimHead, true_and, Nat.sub_self]
  refine and_congr ?_ ?_
  · cases hf : v.file with
    | none => simp
    | some f =>
      simp only [map_some, some.injEq, Prod.mk.injEq, true_and, reduceCtorEq, iff_false, wrap]
      omega
  · cases ho : v.shmem with
    | none => simp
    | some o =>
      simp only [map_some, some.injEq, Prod.mk.injEq, true_and, reduceCtorEq,
        false_or, Nat.zero_div]
      omega

lemma mapping_trimHead (h1 : v.start < stop) (h2 : stop ≤ addr) (hs : PageAligned v.start)
    (he : PageAligned stop) (hfree : v.HeadFree stop) :
    (v.trimHead stop).mapping addr = v.mapping addr := by
  have hpages : (addr - v.start) / pageSize = (addr - stop) / pageSize +
      (stop - v.start) / pageSize := by
    simp only [PageAligned, pageSize] at *
    omega
  obtain ⟨hfile, hshmem⟩ := hfree
  rw [mapping, mapping]
  simp only [trimHead, hfile, map_none]
  congr 1
  rcases hshmem with hnone | hzero
  · simp [hnone]
  · congr 1
    funext o
    rw [hpages]
    congr 1
    omega

/-- What is required of a VMA: a split gets its memory, and a head is not lost with a backing. -/
def Vma.CutOk (ok : Bool) (start stop : ℕ) (v : Vma) : Prop :=
  (v.start < start → stop < v.stop → ok = true) ∧
    (start ≤ v.start → v.start < stop → stop < v.stop → v.HeadFree stop)

instance (ok : Bool) (start stop : ℕ) (v : Vma) : Decidable (v.CutOk ok start stop) :=
  inferInstanceAs (Decidable (_ ∧ _))

lemma find_pieces_map (hok : v.CutOk ok start stop) (hcov : v.covers addr = true)
    (hal : PageAligned v.start) (hlt : start < stop) (he : PageAligned stop) :
    (mmVmaFind (v.pieces ok start stop) addr).map (·.mapping addr) =
      if start ≤ addr ∧ addr < stop then none else some (v.mapping addr) := by
  obtain ⟨hlo, hhi⟩ := covers_iff.mp hcov
  have hcut := cut_pieces ok start stop v
  generalize v.pieces ok start stop = l at hcut
  cases hcut with
  | outside hout =>
    rw [if_neg (by omega), mmVmaFind_cons_of_covers hlo hhi, map_some]
  | covered h1 h2 =>
    rw [if_pos (by omega)]
    rfl
  | splitFails h1 h2 hfail => exact absurd ((hok.1 h1 h2).symm.trans hfail) (by simp)
  | split h1 h2 _ =>
    rcases lt_or_ge addr start with hleft | hright
    · rw [if_neg (by omega), mmVmaFind_cons_of_covers (v := v.trimTail start) hlo hleft]
      rfl
    · rw [mmVmaFind_cons_of_not (v := v.trimTail start) (.inr hright)]
      rcases lt_or_ge addr stop with hin | hout
      · rw [if_pos ⟨hright, hin⟩, mmVmaFind_cons_of_not (v := v.rightPart stop) (.inl hin)]
        rfl
      · rw [if_neg (by omega), mmVmaFind_cons_of_covers (v := v.rightPart stop) hout hhi,
          map_some, mapping_rightPart (h1.trans hlt).le hout hal he]
  | tail h1 h2 h3 =>
    rcases lt_or_ge addr start with hleft | hright
    · rw [if_neg (by omega), mmVmaFind_cons_of_covers (v := v.trimTail start) hlo hleft]
      rfl
    · rw [if_pos (by omega), mmVmaFind_cons_of_not (v := v.trimTail start) (.inr hright)]
      rfl
  | head h1 h2 h3 =>
    rcases lt_or_ge addr stop with hin | hout
    · rw [if_pos (by omega), mmVmaFind_cons_of_not (v := v.trimHead stop) (.inl hin)]
      rfl
    · rw [if_neg (by omega), mmVmaFind_cons_of_covers (v := v.trimHead stop) hout hhi,
        map_some, mapping_trimHead h2 hout hal he (hok.2 h1 h2 h3)]

/-! ### The map -/

/-- The condition on the whole list: a split, if there is one, gets its memory, and no VMA with a
backing loses its head. -/
def RemoveOk (ks : Outcomes) (vmas : List Vma) (start stop : ℕ) : Prop :=
  ∀ v ∈ vmas, v.CutOk ks.next.1 start stop

instance (ks : Outcomes) (vmas : List Vma) (start stop : ℕ) :
    Decidable (RemoveOk ks vmas start stop) := List.decidableBAll _ _

/-- `mm_vma_remove` refines the removal of the range from the address map. -/
lemma mappingAt_remove (h : IsVmaList vmas) (hlt : start < stop) (he : PageAligned stop)
    (hok : RemoveOk ks vmas start stop) :
    mappingAt (mmVmaRemove ks vmas start stop).2.1 = eraseRange (mappingAt vmas) start stop := by
  funext addr
  rw [mappingAt, mmVmaFind_remove h.ordered hlt, eraseRange, mappingAt]
  cases hfind : mmVmaFind vmas addr with
  | none => simp
  | some v =>
    obtain ⟨hv, hcov⟩ := h.find_eq_some_iff.mp hfind
    rw [bind_some, map_some, find_pieces_map (hok v hv) hcov (h.aligned v hv).1 hlt he]

/-- No address of the range is mapped, and what was mapped outside it is mapped as before. -/
def RemovesRange (vmas vmas' : List Vma) (start stop : ℕ) : Prop :=
  (∀ addr, start ≤ addr → addr < stop → mmVmaFind vmas' addr = none) ∧
    ∀ addr m, ¬ (start ≤ addr ∧ addr < stop) → mappingAt vmas addr = some m →
      mappingAt vmas' addr = some m

/-- A VMA of the list that is cut badly shows in the map. -/
lemma cutOk_of_removesRange (h : IsVmaList vmas) (hlt : start < stop)
    (hrem : RemovesRange vmas (mmVmaRemove ks vmas start stop).2.1 start stop) (hv : v ∈ vmas) :
    v.CutOk ks.next.1 start stop := by
  have hfind : ∀ addr, v.start ≤ addr → addr < v.stop →
      mmVmaFind (mmVmaRemove ks vmas start stop).2.1 addr =
        mmVmaFind (v.pieces ks.next.1 start stop) addr := by
    intro addr hlo hhi
    rw [mmVmaFind_remove h.ordered hlt,
      h.find_eq_some_iff.mpr ⟨hv, covers_iff.mpr ⟨hlo, hhi⟩⟩, bind_some]
  have hcut := cut_pieces ks.next.1 start stop v
  generalize v.pieces ks.next.1 start stop = l at hcut hfind
  refine ⟨fun h1 h2 => ?_, fun h1 h2 h3 => ?_⟩
  · -- a VMA whose split failed still covers the start of the range
    cases hcut with
    | split _ _ hok => exact hok
    | splitFails =>
      have hnone := hrem.1 start le_rfl hlt
      rw [hfind start h1.le (hlt.trans h2), mmVmaFind_cons_of_covers h1.le (hlt.trans h2)] at hnone
      nomatch hnone
    | _ => omega
  · -- the new head of a VMA is the first address behind the range
    cases hcut with
    | head =>
      have hmap : mappingAt vmas stop = some (v.mapping stop) := by
        rw [mappingAt, h.find_eq_some_iff.mpr ⟨hv, covers_iff.mpr ⟨h2.le, h3⟩⟩, map_some]
      have hsame := hrem.2 stop _ (by omega) hmap
      rw [mappingAt, hfind stop h2.le h3,
        mmVmaFind_cons_of_covers (show (v.trimHead stop).start ≤ stop from le_rfl) h3,
        map_some, some.injEq] at hsame
      exact (mapping_trimHead_iff h2 (h3.trans (h.bound v hv))).mp hsame
    | _ => omega

/-- **`mm_vma_remove`**: the list is sorted, disjoint and aligned again, and the range is removed
with everything else kept exactly under `RemoveOk`. -/
theorem mm_vma_remove_exact (h : IsVmaList vmas) (hlt : start < stop) (hs : PageAligned start)
    (he : PageAligned stop) : IsVmaList (mmVmaRemove ks vmas start stop).2.1 ∧
      (RemovesRange vmas (mmVmaRemove ks vmas start stop).2.1 start stop ↔
        RemoveOk ks vmas start stop) := by
  refine ⟨mmVmaRemove_isVmaList h hlt hs he,
    fun hrem v hv => cutOk_of_removesRange h hlt hrem hv, fun hok => ?_⟩
  have hmap := mappingAt_remove h hlt he hok
  refine ⟨fun addr hlo hhi => ?_, fun addr m hout hm => ?_⟩
  · have hnone : mappingAt (mmVmaRemove ks vmas start stop).2.1 addr = none := by
      rw [hmap, eraseRange, if_pos ⟨hlo, hhi⟩]
    exact map_eq_none_iff.mp hnone
  · rw [hmap, eraseRange, if_neg hout, hm]

/-- Three pages of a file, from its first byte on, of which the last is half filled. -/
def threePages : Vma := ⟨0x400000, 0x403000, vmaFile ||| vmaR, none, 0, some 7, 0, 0x2800⟩

lemma threePages_isVmaList : IsVmaList [threePages] := by
  refine ⟨ordered_singleton (by decide), fun v hv => ?_, fun v hv => ?_⟩
  · obtain rfl := mem_singleton.mp hv
    decide
  · obtain rfl := mem_singleton.mp hv
    decide

/-- **The head of a file mapping**: without its first page, the mapping of the second page begins
at the first byte of the file instead of the second page of it, with all of its 0x2800 bytes still
ahead.  And if a page is to be cut out of the middle while the heap is exhausted, it stays. -/
theorem head_trim_shifts_file : IsVmaList [threePages] ∧
    mappingAt [threePages] 0x401000 = some ⟨vmaFile ||| vmaR, some (7, 0x1000, 0x1800), none⟩ ∧
    mappingAt (mmVmaRemove [] [threePages] 0x400000 0x401000).2.1 0x401000 =
      some ⟨vmaFile ||| vmaR, some (7, 0, 0x2800), none⟩ ∧
    (mmVmaRemove [false] [threePages] 0x401000 0x402000).1 = true ∧
    mmVmaFind (mmVmaRemove [false] [threePages] 0x401000 0x402000).2.1 0x401000 = some threePages :=
  ⟨threePages_isVmaList, by decide, by decide, by decide, by decide⟩

/-- A page in the middle of the three is removed. -/
theorem middle_page_removed :
    RemovesRange [threePages] (mmVmaRemove [true] [threePages] 0x401000 0x402000).2.1
      0x401000 0x402000 :=
  (mm_vma_remove_exact threePages_isVmaList (by decide) (by decide) (by decide)).2.mpr (by decide)

end Makaos
