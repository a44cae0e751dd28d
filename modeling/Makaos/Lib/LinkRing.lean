import Mathlib.Tactic
import Mathlib.Data.List.Rotate

/-!
Doubly linked rings with a hand.

A node is an address of an arbitrary type; every node has a `next` and a `prev` word, and the hand
points to a node of the ring, or is null when the ring is empty.

* `Links.insert`, `Links.remove`, `Links.advance`: the operations, word by word.
* `IsRing r l`: the ring has the nodes of `l`, in this order from the hand on.
* `IsRing.insert`, `IsRing.remove`, `IsRing.advance`: what the operations do to `l`.
-/

namespace LinkRing

open Function List

/-- The link words of the nodes, `none` for the null pointer, and the hand. -/
structure Links (α : Type*) where
  next : α → Option α
  prev : α → Option α
  hand : Option α

variable {α : Type*} {r s : Links α} {a b c e : α} {l m : List α}

/-- The hand goes to the next node. -/
def Links.advance (r : Links α) : Option (Links α) := r.hand.map fun h => { r with hand := r.next h }

/-- From `a` along `l` to `b`, in both directions. -/
def Path (r : Links α) : α → List α → α → Prop
  | a, [], b => r.next a = some b ∧ r.prev b = some a
  | a, c :: l, b => r.next a = some c ∧ r.prev c = some a ∧ Path r c l b

/-- The ring has the nodes of `l`, from the hand on. -/
def IsRing (r : Links α) : List α → Prop
  | [] => r.hand = none
  | h :: l => r.hand = some h ∧ (h :: l).Nodup ∧ Path r h l h

lemma path_append : Path r a (l ++ c :: m) b ↔ Path r a l c ∧ Path r c m b := by
  induction l generalizing a with
  | nil => simp [Path, and_assoc]
  | cons d l ih => simp [Path, ih, and_assoc]

lemma Path.frame (h : Path r a l b) (hnext : ∀ c ∈ a :: l, s.next c = r.next c)
    (hprev : ∀ c ∈ l ++ [b], s.prev c = r.prev c) : Path s a l b := by
  induction l generalizing a with
  | nil => exact ⟨(hnext a (by simp)).trans h.1, (hprev b (by simp)).trans h.2⟩
  | cons c l ih =>
    refine ⟨(hnext a (by simp)).trans h.1, (hprev c (by simp)).trans h.2.1, ih h.2.2 ?_ ?_⟩
    · exact fun d hd => hnext d (mem_cons_of_mem a hd)
    · exact fun d hd => hprev d (mem_cons_of_mem c hd)

/-- The last link of a path. -/
lemma Path.last (h : Path r a l b) : ∃ z ∈ a :: l, r.next z = some b ∧ r.prev b = some z := by
  induction l generalizing a with
  | nil => exact ⟨a, mem_cons_self, h⟩
  | cons c l ih =>
    obtain ⟨z, hz, hlink⟩ := ih h.2.2
    exact ⟨z, mem_cons_of_mem a hz, hlink⟩

/-- **The last link of a path is bent** to another node. -/
lemma Path.bend {z : α} (h : Path r a l b) (hz : r.prev b = some z) (hnodup : (a :: l).Nodup)
    (hb : b ∉ l) (hc : c ∉ l) (hnext : s.next z = some c) (hprev : s.prev c = some z)
    (hn : ∀ d ∈ a :: l, d ≠ z → s.next d = r.next d) (hp : ∀ d ∈ l, s.prev d = r.prev d) :
    Path s a l c := by
  induction l generalizing a with
  | nil =>
    obtain rfl : a = z := Option.some.inj (h.2.symm.trans hz)
    exact ⟨hnext, hprev⟩
  | cons d l ih =>
    obtain ⟨ha, hrest⟩ := nodup_cons.mp hnodup
    obtain ⟨y, hy, -, hyb⟩ := h.2.2.last
    have haz : a ≠ z := by
      rintro rfl
      obtain rfl := Option.some.inj (hyb.symm.trans hz)
      exact ha hy
    refine ⟨(hn a mem_cons_self haz).trans h.1, (hp d mem_cons_self).trans h.2.1, ?_⟩
    exact ih h.2.2 hrest (mt (mem_cons_of_mem d) hb) (mt (mem_cons_of_mem d) hc)
      (fun x hx => hn x (mem_cons_of_mem a hx)) fun x hx => hp x (mem_cons_of_mem d hx)

lemma IsRing.hand_eq (h : IsRing r l) : r.hand = l.head? := by
  cases l with
  | nil => exact h
  | cons a l => exact h.1

lemma IsRing.nodup (h : IsRing r l) : l.Nodup := by
  cases l with
  | nil => exact nodup_nil
  | cons a l => exact h.2.1

/-- **The hand goes on** by one node. -/
lemma IsRing.advance (h : IsRing r (a :: l)) :
    ∃ s, r.advance = some s ∧ IsRing s (l ++ [a]) := by
  obtain ⟨hhand, hnodup, hpath⟩ := h
  refine ⟨_, by rw [Links.advance, hhand, Option.map_some], ?_⟩
  have hperm : (l ++ [a]).Nodup := (perm_append_singleton a l).nodup_iff.mpr hnodup
  cases l with
  | nil => exact ⟨hpath.1, hperm, hpath.frame (fun _ _ => rfl) fun _ _ => rfl⟩
  | cons b l =>
    -- the way round is cut before the node that the hand leaves
    have hround : Path r b (l ++ [a]) b := path_append.mpr ⟨hpath.2.2, hpath.1, hpath.2.1⟩
    exact ⟨hpath.1, hperm, hround.frame (fun _ _ => rfl) fun _ _ => rfl⟩

variable [DecidableEq α]

/-- A node is linked in before the hand. -/
def Links.insert (r : Links α) (e : α) : Option (Links α) :=
  match r.hand with
  | none => some ⟨update r.next e (some e), update r.prev e (some e), some e⟩
  | some h => (r.prev h).map fun p =>
      { r with
        next := update (update r.next e (some h)) p (some e)
        prev := update (update r.prev e (some p)) h (some e) }

/-- The neighbours of a node are linked to each other, and the hand leaves it. -/
def Links.bypass (r : Links α) (e p n : α) : Links α where
  next := update (update r.next p (some n)) e none
  prev := update (update r.prev n (some p)) e none
  hand := if r.hand = some e then some n else r.hand

/-- A node is linked out, and the hand goes on if it points to it; a null link is not followed. -/
def Links.remove (r : Links α) (e : α) : Option (Links α) :=
  if r.next e = some e then some ⟨update r.next e none, update r.prev e none, none⟩
  else
    match r.prev e, r.next e with
    | some p, some n => some (r.bypass e p n)
    | _, _ => none

/-- **A new node comes last**, as seen from the hand. -/
lemma IsRing.insert (h : IsRing r l) (he : e ∉ l) :
    ∃ s, r.insert e = some s ∧ IsRing s (l ++ [e]) := by
  cases l with
  | nil =>
    have hhand : r.hand = none := h
    refine ⟨_, by rw [Links.insert, hhand], rfl, nodup_singleton e, ?_⟩
    simp [Path]
  | cons a l =>
    obtain ⟨hhand, hnodup, hpath⟩ := h
    obtain ⟨z, hz, hza, haz⟩ := hpath.last
    obtain ⟨hal, -⟩ := nodup_cons.mp hnodup
    have hea : e ≠ a := fun h => he (h ▸ mem_cons_self)
    have hel : e ∉ l := fun h => he (mem_cons_of_mem a h)
    have hez : e ≠ z := fun h => he (h ▸ hz)
    have hinsert : r.insert e = some ⟨update (update r.next e (some a)) z (some e),
        update (update r.prev e (some z)) a (some e), some a⟩ := by
      simp [Links.insert, hhand, haz]
    refine ⟨_, hinsert, rfl, ?_, path_append.mpr ⟨?_, ?_, update_self ..⟩⟩
    · exact (perm_append_singleton e (a :: l)).nodup_iff.mpr (nodup_cons.mpr ⟨he, hnodup⟩)
    · refine hpath.bend haz hnodup hal hel (update_self ..) ?_ (fun d hd hdz => ?_) fun d hd => ?_
      · exact (update_of_ne hea _ _).trans (update_self ..)
      · exact (update_of_ne hdz _ _).trans (update_of_ne (ne_of_mem_of_not_mem hd he) _ _)
      · exact (update_of_ne (ne_of_mem_of_not_mem hd hal) _ _).trans
          (update_of_ne (ne_of_mem_of_not_mem hd hel) _ _)
    · exact (update_of_ne hez _ _).trans (update_self ..)

lemma remove_eq {p n : α} (hp : r.prev e = some p) (hn : r.next e = some n) (hne : n ≠ e) :
    r.remove e = some (r.bypass e p n) := by
  simp [Links.remove, hp, hn, hne]

/-- **A node is taken out of the ring**; when it is the first, the hand goes to the next. -/
lemma IsRing.remove (h : IsRing r (l ++ e :: m)) : ∃ s, r.remove e = some s ∧ IsRing s (l ++ m) := by
  cases l with
  | nil =>
    obtain ⟨hhand, hnodup, hpath⟩ := h
    obtain ⟨hem, hm⟩ := nodup_cons.mp hnodup
    cases m with
    | nil => exact ⟨_, if_pos hpath.1, rfl⟩
    | cons c m =>
      obtain ⟨hec, -, hround⟩ := hpath
      obtain ⟨z, hz, -, hez⟩ := hround.last
      have hne {d : α} (hd : d ∈ c :: m) : d ≠ e := ne_of_mem_of_not_mem hd hem
      obtain ⟨hcm, -⟩ := nodup_cons.mp hm
      refine ⟨_, remove_eq hez hec (hne mem_cons_self), if_pos hhand, hm, ?_⟩
      refine hround.bend hez hm (mt (mem_cons_of_mem c) hem) hcm ?_ ?_ (fun d hd hdz => ?_)
        fun d hd => ?_
      · exact (update_of_ne (hne hz) _ _).trans (update_self ..)
      · exact (update_of_ne (hne mem_cons_self) _ _).trans (update_self ..)
      · exact (update_of_ne (hne hd) _ _).trans (update_of_ne hdz _ _)
      · exact (update_of_ne (hne (mem_cons_of_mem c hd)) _ _).trans
          (update_of_ne (ne_of_mem_of_not_mem hd hcm) _ _)
  | cons a l =>
    have hnodup := h.nodup
    obtain ⟨hhand, -, hround⟩ := h
    obtain ⟨hto, hfrom⟩ := path_append.mp hround
    obtain ⟨p, hp, -, hep⟩ := hto.last
    obtain ⟨hout, hrest⟩ := nodup_cons.mp (nodup_middle.mp hnodup)
    obtain ⟨hl, hm, hdisj⟩ := nodup_append.mp hrest
    have hne {d : α} (hd : d ∈ (a :: l) ++ m) : d ≠ e := ne_of_mem_of_not_mem hd hout
    have hleft {d : α} (hd : d ∈ a :: l) : d ≠ e := hne (mem_append_left m hd)
    have hel : e ∉ l := fun h => hleft (mem_cons_of_mem a h) rfl
    have hstay : r.hand ≠ some e := by
      rw [hhand]
      exact fun h => hleft mem_cons_self (Option.some.inj h)
    -- the way to the node is bent to its successor
    have hbend {n : α} (hn : n ∉ l) (hen : n ≠ e) : Path (r.bypass e p n) a l n := by
      refine hto.bend hep hl hel hn ?_ ?_ (fun d hd hdp => ?_) fun d hd => ?_
      · exact (update_of_ne (hleft hp) _ _).trans (update_self ..)
      · exact (update_of_ne hen _ _).trans (update_self ..)
      · exact (update_of_ne (hleft hd) _ _).trans (update_of_ne hdp _ _)
      · exact (update_of_ne (hleft (mem_cons_of_mem a hd)) _ _).trans
          (update_of_ne (ne_of_mem_of_not_mem hd hn) _ _)
    cases m with
    | nil =>
      have hal : a ∉ l := (nodup_cons.mp hl).1
      rw [append_nil]
      exact ⟨_, remove_eq hep hfrom.1 (hleft mem_cons_self), (if_neg hstay).trans hhand, hl,
        hbend hal (hleft mem_cons_self)⟩
    | cons c m =>
      have hcl : c ∉ l := fun h => hdisj c (mem_cons_of_mem a h) c mem_cons_self rfl
      have hc : c ≠ e := hne (mem_append_right _ mem_cons_self)
      refine ⟨_, remove_eq hep hfrom.1 hc, (if_neg hstay).trans hhand, hrest, ?_⟩
      refine path_append.mpr ⟨hbend hcl hc, hfrom.2.2.frame (fun d hd => ?_) fun d hd => ?_⟩
      · exact (update_of_ne (hne (mem_append_right _ hd)) _ _).trans
          (update_of_ne (hdisj p hp d hd).symm _ _)
      · have hdc : d ≠ c ∧ d ≠ e := by
          rcases mem_append.mp hd with hd | hd
          · exact ⟨ne_of_mem_of_not_mem hd (nodup_cons.mp hm).1,
              hne (mem_append_right _ (mem_cons_of_mem c hd))⟩
          · obtain rfl := mem_singleton.mp hd
            exact ⟨hdisj d mem_cons_self c mem_cons_self, hleft mem_cons_self⟩
        exact (update_of_ne hdc.2 _ _).trans (update_of_ne hdc.1 _ _)

end LinkRing
