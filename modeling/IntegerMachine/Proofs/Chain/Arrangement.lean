import IntegerMachine.Chain.Arrangement

/-!
# All orders, in lexicographic order

Arranging the members of a list gives each of its orders, and arranging a list of positions gives
them in the lexicographic order of positions.  Since arranging commutes with looking up the member
at a position (`arrangements_eq_map_placed`), both are known of every list, equal members or not.
-/

set_option autoImplicit false

namespace IntegerMachine.Chain

/-- An order of so many members: the positions they are taken from, each once. -/
def IsOrder (count : Nat) (positions : List Nat) : Prop :=
  positions.Perm (List.range count)

/-- The members at positions, in the order of the positions. -/
def placed (members : List Int) (positions : List Nat) : List Int :=
  positions.map fun k => members.getD k 0

/-! ## One member taken out -/

section Picks

variable {α β : Type}

/-- A member and those left when it is taken are all the members. -/
theorem perm_of_mem_picks {members rest : List α} {x : α} (h : (x, rest) ∈ picks members) :
    members.Perm (x :: rest) := by
  induction members generalizing x rest with
  | nil => exact absurd h List.not_mem_nil
  | cons y others ih =>
    rcases List.mem_cons.mp h with heq | hmem
    · obtain ⟨rfl, rfl⟩ := Prod.mk.inj heq
      exact .refl _
    · obtain ⟨⟨z, left⟩, hleft, heq⟩ := List.mem_map.mp hmem
      obtain ⟨rfl, rfl⟩ := Prod.mk.inj heq
      exact ((ih hleft).cons y).trans (.swap z y left)

/-- Every member can be taken. -/
theorem exists_mem_picks {members : List α} {x : α} (h : x ∈ members) :
    ∃ rest, (x, rest) ∈ picks members := by
  induction members with
  | nil => exact absurd h List.not_mem_nil
  | cons y others ih =>
    rcases List.mem_cons.mp h with rfl | hmem
    · exact ⟨others, List.mem_cons_self⟩
    · obtain ⟨rest, hrest⟩ := ih hmem
      exact ⟨y :: rest, List.mem_cons_of_mem _ (List.mem_map.mpr ⟨_, hrest, rfl⟩)⟩

/-- The members are taken in their order. -/
theorem map_fst_picks (members : List α) : (picks members).map Prod.fst = members := by
  induction members with
  | nil => rfl
  | cons x rest ih =>
    rw [picks, List.map_cons, List.map_map]
    exact congrArg (x :: ·) ih

/-- The members left when one is taken keep their order. -/
theorem sublist_of_mem_picks {members rest : List α} {x : α} (h : (x, rest) ∈ picks members) :
    rest.Sublist members := by
  induction members generalizing x rest with
  | nil => exact absurd h List.not_mem_nil
  | cons y others ih =>
    rcases List.mem_cons.mp h with heq | hmem
    · obtain ⟨-, rfl⟩ := Prod.mk.inj heq
      exact List.sublist_cons_self y rest
    · obtain ⟨⟨z, left⟩, hleft, heq⟩ := List.mem_map.mp hmem
      obtain ⟨-, rfl⟩ := Prod.mk.inj heq
      exact (ih hleft).cons_cons y

/-- What is done to all members is done to the one taken and to those left. -/
theorem picks_map (f : α → β) (members : List α) :
    picks (members.map f) = (picks members).map (Prod.map f (List.map f)) := by
  induction members with
  | nil => rfl
  | cons x rest ih =>
    rw [List.map_cons, picks, ih, picks, List.map_cons, List.map_map, List.map_map]
    rfl

/-! ## All orders -/

/-- The arrangements of a list are its permutations. -/
theorem mem_arrangements_iff {members order : List α} :
    order ∈ arrangements members ↔ order.Perm members := by
  unfold arrangements
  generalize hcount : members.length = count
  induction count generalizing members order with
  | zero =>
    obtain rfl := List.length_eq_zero_iff.mp hcount
    rw [arrangementsOf, List.mem_singleton, List.perm_nil]
  | succ count ih =>
    have hlength : ∀ {x rest}, (x, rest) ∈ picks members → rest.length = count := by
      intro x rest hpick
      have h := (perm_of_mem_picks hpick).length_eq
      rw [hcount, List.length_cons] at h
      exact (Nat.succ.inj h).symm
    rw [arrangementsOf, List.mem_flatMap]
    constructor
    · rintro ⟨⟨x, rest⟩, hpick, hmem⟩
      obtain ⟨order, horder, rfl⟩ := List.mem_map.mp hmem
      exact (((ih (hlength hpick)).mp horder).cons x).trans (perm_of_mem_picks hpick).symm
    · intro hperm
      cases order with
      | nil =>
        rw [← hperm.length_eq] at hcount
        exact absurd hcount (by simp)
      | cons x order =>
        obtain ⟨rest, hpick⟩ := exists_mem_picks (hperm.mem_iff.mp List.mem_cons_self)
        have hrest := (hperm.trans (perm_of_mem_picks hpick)).cons_inv
        exact ⟨(x, rest), hpick, List.mem_map.mpr ⟨order, (ih (hlength hpick)).mpr hrest, rfl⟩⟩

/-- What is done to all members is done to those of every arrangement. -/
theorem arrangementsOf_map (f : α → β) (count : Nat) (members : List α) :
    arrangementsOf count (members.map f) = (arrangementsOf count members).map (List.map f) := by
  induction count generalizing members with
  | zero => rfl
  | succ count ih =>
    rw [arrangementsOf, picks_map, List.flatMap_map, arrangementsOf, List.map_flatMap]
    congr 1
    funext pick
    simp only [Prod.map_fst, Prod.map_snd, ih, List.map_map]
    rfl

end Picks

/-- Arranging positions and looking up the members there is arranging the members. -/
theorem arrangements_eq_map_placed (members : List Int) :
    arrangements members = (arrangements (List.range members.length)).map (placed members) := by
  have hmembers : (List.range members.length).map (fun k => members.getD k 0) = members := by
    apply List.ext_getElem
    · simp
    · intro k h₁ h₂
      simp [h₂]
  have hmap := arrangementsOf_map (fun k => members.getD k 0) members.length
    (List.range members.length)
  rw [hmembers] at hmap
  rw [arrangements, arrangements, List.length_range]
  exact hmap

/-! ## The lexicographic order -/

/-- Increasing members are arranged in lexicographic order, each arrangement once. -/
theorem pairwise_arrangementsOf (count : Nat) {members : List Nat}
    (h : members.Pairwise (· < ·)) : (arrangementsOf count members).Pairwise (· < ·) := by
  induction count generalizing members with
  | zero => exact List.pairwise_singleton _ _
  | succ count ih =>
    rw [arrangementsOf, List.pairwise_flatMap]
    constructor
    · rintro ⟨x, rest⟩ hpick
      rw [List.pairwise_map]
      have hrest := ih (h.sublist (sublist_of_mem_picks hpick))
      exact hrest.imp fun hlt => List.cons_lt_cons_iff.mpr (.inr ⟨rfl, hlt⟩)
    · rw [← map_fst_picks members, List.pairwise_map] at h
      apply h.imp
      rintro ⟨x, rest⟩ ⟨y, rest'⟩ hlt order horder order' horder'
      obtain ⟨tail, -, rfl⟩ := List.mem_map.mp horder
      obtain ⟨tail', -, rfl⟩ := List.mem_map.mp horder'
      exact List.cons_lt_cons_iff.mpr (.inl hlt)

/-- Positions are arranged in lexicographic order. -/
theorem pairwise_arrangements_range (count : Nat) :
    (arrangements (List.range count)).Pairwise (· < ·) :=
  pairwise_arrangementsOf _ List.pairwise_lt_range

/-- The orders in front of one are those lexicographically smaller. -/
theorem mem_before_iff {count : Nat} {before after : List (List Nat)} {positions other : List Nat}
    (h : arrangements (List.range count) = before ++ positions :: after) :
    other ∈ before ↔ IsOrder count other ∧ other < positions := by
  have hordered := pairwise_arrangements_range count
  have hall : other ∈ arrangements (List.range count) ↔ IsOrder count other := mem_arrangements_iff
  rw [h, List.pairwise_append, List.pairwise_cons] at hordered
  obtain ⟨-, ⟨hafter, -⟩, hbefore⟩ := hordered
  rw [h, List.mem_append, List.mem_cons] at hall
  constructor
  · exact fun hmem => ⟨hall.mp (.inl hmem), hbefore other hmem positions List.mem_cons_self⟩
  · rintro ⟨horder, hlt⟩
    rcases hall.mpr horder with hmem | rfl | hmem
    · exact hmem
    · exact absurd hlt (List.lt_irrefl _)
    · exact absurd (List.lt_trans hlt (hafter other hmem)) (List.lt_irrefl _)

/-- The arrangements of a list are its members placed in the orders of their positions. -/
theorem mem_arrangements_iff_placed {members order : List Int} :
    order ∈ arrangements members ↔
      ∃ positions, IsOrder members.length positions ∧ placed members positions = order := by
  rw [arrangements_eq_map_placed, List.mem_map]
  simp only [mem_arrangements_iff, IsOrder]

/-- An order of the members among all is the members at positions, and those in front of it are
the members at lexicographically smaller positions. -/
theorem exists_positions {members order : List Int} {before after : List (List Int)}
    (h : arrangements members = before ++ order :: after) :
    ∃ positions, IsOrder members.length positions ∧ placed members positions = order ∧
      ∀ other, IsOrder members.length other → other < positions →
        placed members other ∈ before := by
  rw [arrangements_eq_map_placed, List.map_eq_append_iff] at h
  obtain ⟨front, rest, hsplit, rfl, hrest⟩ := h
  obtain ⟨positions, back, rfl, rfl, rfl⟩ := List.map_eq_cons_iff.mp hrest
  refine ⟨positions, mem_arrangements_iff.mp (by rw [hsplit]; simp), rfl, ?_⟩
  intro other horder hlt
  exact List.mem_map_of_mem ((mem_before_iff hsplit).mpr ⟨horder, hlt⟩)

/-- The members at positions are found among all orders behind those at lexicographically smaller
positions only. -/
theorem exists_split_of_isOrder {members : List Int} {positions : List Nat}
    (h : IsOrder members.length positions) :
    ∃ before after, arrangements members = before ++ placed members positions :: after ∧
      ∀ order ∈ before, ∃ other, IsOrder members.length other ∧ other < positions ∧
        placed members other = order := by
  obtain ⟨front, back, hsplit⟩ := List.append_of_mem (mem_arrangements_iff.mpr h)
  refine ⟨front.map (placed members), back.map (placed members), ?_, ?_⟩
  · rw [arrangements_eq_map_placed, hsplit, List.map_append, List.map_cons]
  · intro order hmem
    obtain ⟨other, hother, rfl⟩ := List.mem_map.mp hmem
    obtain ⟨horder, hlt⟩ := (mem_before_iff hsplit).mp hother
    exact ⟨other, horder, hlt, rfl⟩

end IntegerMachine.Chain
