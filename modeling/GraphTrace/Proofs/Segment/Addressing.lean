import GraphTrace.Proofs.Segment.Growth

/-!
# Addressing a resolver by its path and by its handle

A resolver can be named in two ways: by the path of its field, whose text is looked up among the
levels, and by the handle that its start was answered with, which is a plain place.  Both mean the
same segment for as long as the tree is open (`addressed_alike`): once a level is found at a place
it is found there for good, and the last of the levels of a path has the text of the path.

So it does not matter which way the host ends a resolution or starts work inside it, and recording a
resolution is starting it and ending what was started.  Paths that share their text share their
segment.
-/

namespace GraphTrace.Segment

open Response (Path)

/-- The path whose resolution a call reports to have started. -/
def Call.resolution? : Call → Option Path
  | .start p _ _ | .record p _ _ _ => some p
  | _                              => none

namespace Tree

/-- A resolver that is named by a path and by a handle alike. -/
structure Addressed (t : Tree) (p : Path) (h : Handle) : Prop where
  /-- Its resolution is answered with the handle again, and that of no other text is. -/
  again : ∀ {call : Call} {q : Path} {h' : Handle}, call.resolution? = some q →
    (t.apply call).answer.handle? = some h' → (h' = h ↔ q.text = p.text)
  /-- It ends by its path as by its handle. -/
  ended : ∀ now : Int, (t.apply (.stop p now)).tree = (t.apply (.close h now)).tree
  /-- Work starts in it by its path as by its handle, and is given the same handle. -/
  nested : ∀ (label : String) (now : Int), ∃ h',
    (t.apply (.nested p label now)).answer = .handle (some h') ∧
    (t.apply (.nestedIn h label now)).answer = .handle (some h') ∧
    (t.apply (.nested p label now)).tree = (t.apply (.nestedIn h label now)).tree

/-- Recording resolutions is starting them and ending what was started. -/
def RecordsByEnds (t : Tree) : Prop := ∀ (q : Path) (leaf : Bool) (start stop : Int),
  (t.apply (.record q leaf start stop)).answer = (t.apply (.start q leaf start)).answer ∧
    ∀ h, (t.apply (.start q leaf start)).answer = .handle (some h) →
      (t.apply (.record q leaf start stop)).tree
        = ((t.apply (.start q leaf start)).tree.apply (.close h stop)).tree

/-- The handle that a resolution is answered with is that of its own text. -/
theorem Does.place?_of_resolution {t u : Tree} {call : Call} {answer : Answer} {q : Path}
    {h : Handle} (hd : t.Does call u answer) (hq : call.resolution? = some q)
    (ha : answer.handle? = some h) :
    call.Resolves t.capturesScalars q ∧ h.tree = t.id ∧ u.place? q.text = some h.place := by
  cases hd with
  | start hacc now =>
      obtain rfl := Option.some.inj hq
      obtain rfl := Option.some.inj ha
      exact ⟨⟨rfl, hacc⟩, rfl, place?_resolving t _ _ now⟩
  | record hacc start stop =>
      obtain rfl := Option.some.inj hq
      obtain rfl := Option.some.inj ha
      refine ⟨⟨rfl, hacc⟩, rfl, ?_⟩
      rw [place?_modify _ _ (Work.keepsNested_ended stop)]
      exact place?_resolving t _ _ start
  | refuseStart | refuseRecord => contradiction
  | stop | missStop | close | refuseClose | nested | nestedIn | refuseNestedIn => contradiction

/-- The deepest level of a path is the path itself, where it has a segment. -/
theorem closest?_of_place? {t : Tree} {p : Path} (hp : p ≠ .empty) {k : Nat}
    (hk : t.place? p.text = some k) : t.closest? p = some k := by
  obtain rfl | ⟨q, e, rfl⟩ := p.eq_empty_or_join
  · exact absurd rfl hp
  · rw [closest?, Response.Path.levels_join, List.reverse_concat, List.findSome?_cons, hk]

/-- **A level is addressed** by a path with its text and by the handle on its place. -/
theorem Sound.addressed {t : Tree} (ht : t.Sound) (hc : t.closed = false) {p : Path}
    (hp : p ≠ .empty) {h : Handle} (hid : h.tree = t.id) (hk : t.place? p.text = some h.place) :
    t.Addressed p h where
  again := by
    intro call q h' hq ha
    have hf : ¬ call.Finishes := by
      cases call with
      | finish => contradiction
      | _ => exact fun h => h
    obtain ⟨-, hid', hk'⟩ := (does_apply hc hf).place?_of_resolution hq ha
    have hstill := (t.grows_apply call).place?_eq (ht.after call) hk
    constructor
    · rintro rfl
      exact place?_inj hk' hstill
    · intro e
      have hplace : h'.place = h.place := by
        rw [e, hstill] at hk'
        exact (Option.some.inj hk').symm
      cases h
      cases h'
      simp_all
  ended now := by
    simp only [apply, Outcome.map, stop_of_place? hc hk, close_of_own hc hid]
  nested label now := by
    have hnested : t.nested p label now = t.nestedIn h label now := by
      rw [nested_of_open hc, nestedIn_of_own hc hid (place?_lt hk), closest?_of_place? hp hk]
    refine ⟨t.handle t.segments.length, ?_, ?_, ?_⟩
    · simp only [apply, Outcome.map, nested_of_open hc, Tree.startNested]
    · simp only [apply, Outcome.map, nestedIn_of_own hc hid (place?_lt hk), Tree.startNested]
    · simp only [apply, Outcome.map, hnested]

/-- A recorded resolution is one that starts and one that ends, by its path or by its handle. -/
theorem recordsByEnds (t : Tree) : t.RecordsByEnds := by
  intro q leaf start stop
  simp only [apply, Outcome.map, record]
  cases e : (t.start q leaf start).answer with
  | none => simp [e]
  | some h => simp

/-- **A path and its handle name the same segment.**  Once a resolution of `p` was answered with
`h`, and whatever was called since, the open tree does the same for both. -/
theorem addressed_alike (id : Nat) (captures : Bool) (earlier later : List Call) (call : Call)
    (p : Path) (h : Handle) (hf : ∀ c ∈ earlier ++ call :: later, ¬ c.Finishes)
    (hp : call.resolution? = some p)
    (ha : ((reached id captures earlier).apply call).answer.handle? = some h) :
    (reached id captures (earlier ++ call :: later)).Addressed p h ∧
      (reached id captures (earlier ++ call :: later)).RecordsByEnds := by
  have hopen := open_reached id captures fun c (hc : c ∈ earlier) => hf c (by simp [hc])
  obtain ⟨hresolves, hid, hplace⟩ :=
    (does_apply hopen (hf call (by simp))).place?_of_resolution hp ha
  have hsound := sound_reached id captures (earlier ++ call :: later)
  refine ⟨hsound.addressed (open_reached id captures hf) hresolves.ne_empty ?_ ?_, recordsByEnds _⟩
  · rw [hid, reached_id, reached_id]
  · rw [reached_append, run_cons] at hsound ⊢
    exact (grows_run _ later).place?_eq hsound hplace

/-- Two paths with one text, work inside, and the level above reported later. -/
theorem addressed_alike_colliding :
    (∀ c ∈ ([] : List Call) ++ .start ⟨[.key "a", .key "b"]⟩ false 5
        :: [.start ⟨[.key "a.b"]⟩ false 6, .nested ⟨[.key "a", .key "b"]⟩ "load" 7,
          .start ⟨[.key "a"]⟩ false 1], ¬ c.Finishes) ∧
      (Call.start ⟨[.key "a", .key "b"]⟩ false 5).resolution? = some ⟨[.key "a", .key "b"]⟩ ∧
      ((reached 3 false []).apply (.start ⟨[.key "a", .key "b"]⟩ false 5)).answer.handle?
        = some ⟨3, 1⟩ ∧
      (reached 3 false ([] ++ .start ⟨[.key "a", .key "b"]⟩ false 5
        :: [.start ⟨[.key "a.b"]⟩ false 6, .nested ⟨[.key "a", .key "b"]⟩ "load" 7,
          .start ⟨[.key "a"]⟩ false 1])).Addressed ⟨[.key "a", .key "b"]⟩ ⟨3, 1⟩ := by
  have hf : ∀ c ∈ ([] : List Call) ++ .start ⟨[.key "a", .key "b"]⟩ false 5
      :: [.start ⟨[.key "a.b"]⟩ false 6, .nested ⟨[.key "a", .key "b"]⟩ "load" 7,
        .start ⟨[.key "a"]⟩ false 1], ¬ c.Finishes := by decide
  have ha : ((reached 3 false []).apply (.start ⟨[.key "a", .key "b"]⟩ false 5)).answer.handle?
      = some ⟨3, 1⟩ := by decide +kernel
  exact ⟨hf, rfl, ha, (addressed_alike 3 false [] _ _ _ _ hf rfl ha).1⟩

end Tree

end GraphTrace.Segment
