import GraphTrace.Proofs.Segment.Change
import Mathlib.Data.List.Induction
import Mathlib.Data.Set.Function

/-!
# Where the segments of a finished tree are

A finished tree is a nest of nodes; the tree it was made from is a list of segments, each with the
place of the one above it.  This module relates the two for every sound tree.

* `node_eq`, `snapshot_eq`: below a node stand, in the order of their places, the nodes of the
  segments whose parent it is.
* A node of the finished tree is addressed by its *position*, the indices to follow from the root
  (`Node.at?`).  Every segment has a position (`position`), its node is found there
  (`at?_position`), two segments have two positions (`position_injective`), and every position
  below the root is the one of a segment (`exists_position`).
-/

namespace GraphTrace.Segment

/-- The node at a position: the indices of children to follow from this node. -/
def Node.at? : Node → List Nat → Option Node
  | n, []        => some n
  | n, i :: rest => n.children[i]?.bind (at? · rest)

/-- The positions below a node at which there is a segment of a kind. -/
def Node.positions (n : Node) (kind : Kind) : Set (List Nat) :=
  {p | p ≠ [] ∧ ∃ m, n.at? p = some m ∧ m.kind = kind}

theorem Node.at?_concat (n : Node) (p : List Nat) (i : Nat) :
    n.at? (p ++ [i]) = (n.at? p).bind (·.children[i]?) := by
  induction p generalizing n with
  | nil => simp [at?]
  | cons j rest ih =>
      simp only [List.cons_append, at?]
      cases n.children[j]? with
      | none => rfl
      | some c => exact ih c

namespace Tree

/-! ### The nodes of a tree -/

/-- The place of the segment above the one at place `k`. -/
def parent? (t : Tree) (k : Nat) : Option Nat := t.segments[k]?.bind (·.parent)

/-- The places of the segments directly below the root or a place. -/
def placesBelow (t : Tree) (parent : Option Nat) : List Nat :=
  (List.range t.segments.length).filter (t.parent? · == parent)

/-- The finished segment at place `k`. -/
def node (t : Tree) (k : Nat) : Node :=
  match assemble k (t.segments.drop k) with
  | []          => ⟨"", .operation, none, []⟩
  | (_, n) :: _ => n

/-- Whether the segment at place `k` hangs below the root or below a place before `i`. -/
def hangsBefore (t : Tree) (i k : Nat) : Bool := (t.parent? k).all (· < i)

/-- What is below a place hangs there. -/
theorem mem_placesBelow {t : Tree} {parent : Option Nat} {k : Nat} :
    k ∈ t.placesBelow parent ↔ k < t.segments.length ∧ t.parent? k = parent := by
  simp [placesBelow]

theorem nodup_placesBelow (t : Tree) (parent : Option Nat) : (t.placesBelow parent).Nodup :=
  List.nodup_range.filter _

theorem parent?_modify (t : Tree) (place : Nat) (f : Work → Work) (k : Nat) :
    (t.modify place f).parent? k = t.parent? k := by
  rw [parent?, parent?, modify, List.getElem?_modify]
  cases t.segments[k]? with
  | none => rfl
  | some s => by_cases e : place = k <;> simp [e]

/-- Other work hangs where it hung. -/
theorem placesBelow_modify (t : Tree) (place : Nat) (f : Work → Work) (parent : Option Nat) :
    (t.modify place f).placesBelow parent = t.placesBelow parent := by
  simp only [placesBelow, parent?_modify]
  simp [modify]

/-- The segment above another one came before it. -/
theorem Sound.parent?_lt {t : Tree} (h : t.Sound) {k j : Nat} (e : t.parent? k = some j) :
    j < k := by
  obtain ⟨s, hs, hp⟩ := Option.bind_eq_some_iff.mp e
  exact h.parent_lt hs hp

/-- Every segment hangs below the root or below an earlier place. -/
theorem Sound.hangsBefore_self {t : Tree} (h : t.Sound) (k : Nat) : t.hangsBefore k k := by
  unfold hangsBefore
  cases e : t.parent? k with
  | none => rfl
  | some j => simpa using h.parent?_lt e

/-- What is assembled from place `i` on starts with the node of that segment. -/
theorem assemble_step (t : Tree) {i : Nat} (hi : i < t.segments.length) :
    assemble i (t.segments.drop i) = (t.parent? i, t.node i)
      :: (assemble (i + 1) (t.segments.drop (i + 1))).filter (·.1 != some i) := by
  have hp : t.segments[i].parent = t.parent? i := by simp [parent?, hi]
  rw [node, List.drop_eq_getElem_cons hi, assemble, hp]

/-- **What is assembled from place `i` on**: the segments that hang before it, each with its
parent. -/
theorem Sound.assemble_drop {t : Tree} (h : t.Sound) {i n : Nat} (hn : i + n = t.segments.length) :
    assemble i (t.segments.drop i)
      = ((List.range' i n).filter (t.hangsBefore i)).map fun k => (t.parent? k, t.node k) := by
  induction n generalizing i with
  | zero => rw [List.drop_of_length_le (by omega)]; rfl
  | succ n ih =>
      have hi : i < t.segments.length := by omega
      -- Of the segments further on, those below `i` go into its node and the others stay.
      have hkeep : (fun k => t.parent? k != some i && t.hangsBefore (i + 1) k)
          = t.hangsBefore i := by
        funext k
        unfold hangsBefore
        cases t.parent? k with
        | none => simp
        | some j => grind
      rw [List.range'_succ, List.filter_cons_of_pos (h.hangsBefore_self i), List.map_cons,
        t.assemble_step hi, ih (by omega), List.filter_map, List.filter_filter]
      simp only [Function.comp_def, hkeep]

/-- What hangs below a place comes after it. -/
theorem Sound.placesBelow_eq {t : Tree} (h : t.Sound) {i n : Nat}
    (hn : i + 1 + n = t.segments.length) :
    t.placesBelow (some i) = (List.range' (i + 1) n).filter (t.parent? · == some i) := by
  have hnone : (List.range' 0 (i + 1)).filter (t.parent? · == some i) = [] := by
    rw [List.filter_eq_nil_iff]
    intro k hk e
    have := h.parent?_lt (beq_iff_eq.mp e)
    simp at hk
    omega
  rw [placesBelow, List.range_eq_range', ← hn, ← List.range'_append_1, List.filter_append, hnone,
    List.nil_append, Nat.zero_add]

/-- **The node of a segment**: its own data, and the nodes below it in order. -/
theorem Sound.node_eq {t : Tree} (h : t.Sound) {k : Nat} {s : Entry}
    (hs : t.segments[k]? = some s) :
    t.node k = ⟨s.label, s.work.kind, s.work.clock?.bind (·.took),
      (t.placesBelow (some k)).map t.node⟩ := by
  obtain ⟨hk, rfl⟩ := List.getElem?_eq_some_iff.mp hs
  obtain ⟨n, hn⟩ := Nat.exists_eq_add_of_le (Nat.succ_le_of_lt hk)
  have hbelow : (fun j => t.parent? j == some k && t.hangsBefore (k + 1) j)
      = (t.parent? · == some k) := by
    funext j
    unfold hangsBefore
    cases t.parent? j with
    | none => simp
    | some j => grind
  rw [node, List.drop_eq_getElem_cons hk, assemble, h.assemble_drop hn.symm, List.filter_map,
    List.filter_filter, h.placesBelow_eq hn.symm]
  simp only [List.map_map, Function.comp_def, hbelow]

/-- **The finished tree**: its root, and the nodes of the segments below the root in order. -/
theorem Sound.snapshot_eq {t : Tree} (h : t.Sound) (label : String) (now : Int) :
    t.snapshot label now = ⟨label, .operation, t.started.map (Clock.span · now),
      (t.placesBelow none).map t.node⟩ := by
  have hroot : t.hangsBefore 0 = (t.parent? · == none) := by
    funext k
    unfold hangsBefore
    cases t.parent? k <;> simp
  have := h.assemble_drop (Nat.zero_add t.segments.length)
  rw [List.drop_zero] at this
  rw [snapshot, this, hroot, List.map_map, placesBelow, List.range_eq_range']
  rfl

/-! ### Positions -/

/-- The position of the segment at place `k`: that of the segment above it, and its own rank among
the segments there. -/
def position (t : Tree) (k : Nat) : List Nat :=
  (match t.parent? k with
    | some j => if j < k then t.position j else []
    | none   => [])
    ++ [(t.placesBelow (t.parent? k)).idxOf k]
termination_by k

/-- The position of the root or of the segment at a place. -/
def positionOf (t : Tree) : Option Nat → List Nat
  | none   => []
  | some k => t.position k

/-- A segment is at its rank among those that hang below the same place. -/
theorem Sound.position_eq {t : Tree} (h : t.Sound) (k : Nat) :
    t.position k
      = t.positionOf (t.parent? k) ++ [(t.placesBelow (t.parent? k)).idxOf k] := by
  rw [position]
  congr 1
  cases e : t.parent? k with
  | none => rfl
  | some j => simp [positionOf, h.parent?_lt e]

/-- Only the root is at the empty position. -/
theorem Sound.position_ne_nil {t : Tree} (h : t.Sound) (k : Nat) : t.position k ≠ [] := by
  simp [h.position_eq k]

theorem getElem?_idxOf_placesBelow {t : Tree} {k : Nat} (hk : k < t.segments.length) :
    (t.placesBelow (t.parent? k))[(t.placesBelow (t.parent? k)).idxOf k]? = some k := by
  have hm : k ∈ t.placesBelow (t.parent? k) := mem_placesBelow.mpr ⟨hk, rfl⟩
  rw [List.getElem?_eq_getElem (List.idxOf_lt_length_iff.mpr hm), List.getElem_idxOf]

section Finished

variable {t : Tree} (h : t.Sound) (label : String) (now : Int)
include h

/-- The children of a finished segment are those of the places below it. -/
theorem Sound.children_node {k : Nat} (hk : k < t.segments.length) :
    (t.node k).children = (t.placesBelow (some k)).map t.node := by
  rw [h.node_eq (List.getElem?_eq_getElem hk)]

/-- **The node of a segment stands at its position.** -/
theorem Sound.at?_position {k : Nat} (hk : k < t.segments.length) :
    (t.snapshot label now).at? (t.position k) = some (t.node k) := by
  induction k using Nat.strongRecOn with
  | ind k ih =>
      -- The segment above comes before this one, so its node is where it should be.
      rw [h.position_eq, Node.at?_concat]
      cases e : t.parent? k with
      | none =>
          have hi := getElem?_idxOf_placesBelow hk
          rw [e] at hi
          simp [positionOf, Node.at?, h.snapshot_eq, hi]
      | some j =>
          have hj := h.parent?_lt e
          have hi := getElem?_idxOf_placesBelow hk
          rw [e] at hi
          rw [positionOf, ih j hj (by omega)]
          simp [h.children_node (show j < t.segments.length by omega), hi]

omit h in
/-- Places of one rank below the same place are the same. -/
theorem mem_of_idxOf_eq {j k : Nat} (hj : j < t.segments.length) (hk : k < t.segments.length)
    (hp : t.parent? j = t.parent? k)
    (hi : (t.placesBelow (t.parent? j)).idxOf j = (t.placesBelow (t.parent? k)).idxOf k) :
    j = k := by
  have hj' := getElem?_idxOf_placesBelow hj
  have hk' := getElem?_idxOf_placesBelow hk
  rw [hi, hp, hk'] at hj'
  exact (Option.some.inj hj').symm

/-- **Different segments have different positions.** -/
theorem Sound.position_injective {j k : Nat} (hj : j < t.segments.length)
    (hk : k < t.segments.length) (e : t.position j = t.position k) : j = k := by
  induction k using Nat.strongRecOn generalizing j with
  | ind k ih =>
      rw [h.position_eq j, h.position_eq k] at e
      obtain ⟨habove, hi⟩ := List.append_inj' e rfl
      refine mem_of_idxOf_eq hj hk ?_ (List.singleton_inj.mp hi)
      -- The segments above have one position, so they are one.
      cases ej : t.parent? j with
      | none =>
          cases ek : t.parent? k with
          | none => rfl
          | some b =>
              rw [ej, ek] at habove
              exact absurd habove.symm (h.position_ne_nil b)
      | some a =>
          cases ek : t.parent? k with
          | none =>
              rw [ej, ek] at habove
              exact absurd habove (h.position_ne_nil a)
          | some b =>
              have ha := h.parent?_lt ej
              have hb := h.parent?_lt ek
              rw [ej, ek] at habove
              rw [ih b hb (by omega) (by omega) habove]

/-- **Every position below the root is that of a segment.** -/
theorem Sound.exists_position {p : List Nat} {n : Node}
    (hn : (t.snapshot label now).at? p = some n) (hp : p ≠ []) :
    ∃ k < t.segments.length, p = t.position k ∧ n = t.node k := by
  induction p using List.reverseRecOn generalizing n with
  | nil => exact absurd rfl hp
  | append_singleton above i ih =>
      rw [Node.at?_concat] at hn
      obtain ⟨m, hm, hc⟩ := Option.bind_eq_some_iff.mp hn
      -- The node above is that of the root or of a segment, and its children are known.
      have hq : ∃ q, above = t.positionOf q ∧ m.children = (t.placesBelow q).map t.node := by
        by_cases ha : above = []
        · subst ha
          refine ⟨none, rfl, ?_⟩
          rw [← Option.some.inj hm, h.snapshot_eq]
        · obtain ⟨j, hj, rfl, rfl⟩ := ih hm ha
          exact ⟨some j, rfl, h.children_node hj⟩
      obtain ⟨q, rfl, hcs⟩ := hq
      rw [hcs, List.getElem?_map] at hc
      obtain ⟨k, hk, rfl⟩ := Option.map_eq_some_iff.mp hc
      obtain ⟨hlt, rfl⟩ := mem_placesBelow.mp (List.mem_of_getElem? hk)
      refine ⟨k, hlt, ?_, rfl⟩
      rw [h.position_eq]
      obtain ⟨hi, e⟩ := List.getElem?_eq_some_iff.mp hk
      have hrank := (t.nodup_placesBelow (t.parent? k)).idxOf_getElem i hi
      rw [e] at hrank
      rw [hrank]

/-- **The positions of a kind** are those of the segments of that kind. -/
theorem Sound.mem_positions {kind : Kind} {p : List Nat} :
    p ∈ (t.snapshot label now).positions kind ↔
      ∃ k s, t.segments[k]? = some s ∧ s.work.kind = kind ∧ p = t.position k := by
  constructor
  · rintro ⟨hp, n, hn, rfl⟩
    obtain ⟨k, hk, rfl, rfl⟩ := h.exists_position label now hn hp
    have hs := List.getElem?_eq_getElem hk
    exact ⟨k, _, hs, by rw [h.node_eq hs], rfl⟩
  · rintro ⟨k, s, hs, rfl, rfl⟩
    have hk := (List.getElem?_eq_some_iff.mp hs).1
    refine ⟨h.position_ne_nil k, _, h.at?_position label now hk, ?_⟩
    rw [h.node_eq hs]

end Finished

end Tree

end GraphTrace.Segment
