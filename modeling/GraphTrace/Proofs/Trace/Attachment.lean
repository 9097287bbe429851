import GraphTrace.Proofs.Trace.Run

/-!
# How often segments are attached

The calls that a run of hooks makes on the host, each with the operation whose hook made it and that
operation as it was then (`Request.toldBy`).  They all attach segments, under the identifier that
the operation had then (`toldBy_attach`).

For one operation there are three ends to a run (`fate`): it attached its segments, once; the host
closed its tree itself, and it attached nothing; or its segments are still open, and it attached
nothing yet.
-/

namespace GraphTrace.Trace

/-- A call on the host, by the hook of an operation, and that operation as it was then. -/
structure Told where
  index : Nat
  operation : Operation
  call : HostCall

namespace Request

/-- What a hook for operation `i` tells the host. -/
def toldAt (r : Request) (i : Nat) (hook : Hook) : List Told :=
  match r.operations[i]? with
  | none   => []
  | some o => (told (o.apply hook).2).map (⟨i, o, ·⟩)

/-- What a run of hooks tells the host, in order. -/
def toldBy (r : Request) : List (Nat × Hook) → List Told
  | []                => []
  | (i, hook) :: rest => r.toldAt i hook ++ (r.apply i hook).1.toldBy rest

/-- What the hooks of operation `i` tell the host in a run. -/
def toldOf (r : Request) (hooks : List (Nat × Hook)) (i : Nat) : List Told :=
  (r.toldBy hooks).filter (·.index = i)

/-- Whether the segments of operation `i` are open. -/
def IsOpen (r : Request) (i : Nat) : Prop :=
  ∃ o, r.operations[i]? = some o ∧ o.segments.closed = false

/-- Whether the host closes the segments of operation `i` itself in a run of hooks: by a `finish`
that finds them open. -/
def ClosedByHost (r : Request) (hooks : List (Nat × Hook)) (i : Nat) : Prop :=
  ∃ earlier label now later, hooks = earlier ++ (i, .segment (.finish label now)) :: later ∧
    (r.run earlier).1.IsOpen i

/-! ### One hook -/

section

variable {r : Request} {i j : Nat} {hook : Hook}

/-- A hook closes its own operation at most. -/
theorem isOpen_apply :
    (r.apply i hook).1.IsOpen j ↔ r.IsOpen j ∧ (i = j → hook.closes = false) := by
  unfold IsOpen
  rw [getElem?_apply]
  by_cases e : i = j
  · simp only [e, if_true, Option.map_eq_some_iff]
    constructor
    · rintro ⟨_, ⟨o, ho, rfl⟩, hc⟩
      rw [Operation.closed_apply, Bool.or_eq_false_iff] at hc
      exact ⟨⟨o, ho, hc.1⟩, fun _ => hc.2⟩
    · rintro ⟨⟨o, ho, hc⟩, hh⟩
      exact ⟨_, ⟨o, ho, rfl⟩, by rw [Operation.closed_apply, hc, hh trivial]; rfl⟩
  · simp [e]

/-- **What a hook tells the host**: nothing, or the segments of its operation, which were open. -/
theorem toldAt_cases (r : Request) (i : Nat) (hook : Hook) :
    (r.toldAt i hook = [] ∧ ∀ now, hook = .executed now → ¬ r.IsOpen i) ∨
      ∃ o now, hook = .executed now ∧ r.operations[i]? = some o ∧ o.segments.closed = false ∧
        r.toldAt i hook = [⟨i, o, o.attachment now⟩] := by
  cases e : r.operations[i]? with
  | none =>
      refine .inl ⟨by rw [toldAt, e], ?_⟩
      rintro now - ⟨o, ho, -⟩
      rw [e] at ho
      contradiction
  | some o =>
      have hat : r.toldAt i hook = (told (o.apply hook).2).map (⟨i, o, ·⟩) := by rw [toldAt, e]
      by_cases hx : ∃ now, hook = .executed now
      · obtain ⟨now, rfl⟩ := hx
        rw [o.told_executed now] at hat
        cases hc : o.segments.closed with
        | true =>
            rw [hc] at hat
            refine .inl ⟨hat, ?_⟩
            rintro _ - ⟨o', ho', hc'⟩
            rw [← Option.some.inj (e.symm.trans ho'), hc] at hc'
            contradiction
        | false =>
            rw [hc] at hat
            exact .inr ⟨o, now, rfl, rfl, hc, hat⟩
      · have hne : ∀ now, hook ≠ .executed now := fun now h => hx ⟨now, h⟩
        rw [o.told_apply_of_ne hne] at hat
        exact .inl ⟨hat, fun now h => absurd h (hne now)⟩

/-- What a hook tells the host is about its own operation. -/
theorem told_apply : told (r.apply i hook).2 = (r.toldAt i hook).map (·.call) := by
  cases e : r.operations[i]? with
  | none => simp only [apply, toldAt, e, told, List.filterMap_nil, List.map_nil]
  | some o =>
      simp only [apply, toldAt, e, List.map_map]
      exact (List.map_id _).symm

/-- The calls of a hook are those of its operation. -/
theorem filter_toldAt : (r.toldAt j hook).filter (·.index = i)
    = if j = i then r.toldAt j hook else [] := by
  rcases r.toldAt_cases j hook with ⟨h, -⟩ | ⟨o, now, -, -, -, h⟩
  · rw [h, List.filter_nil, ite_self]
  · rw [h]
    by_cases e : j = i
    · simp [e]
    · simp [e]

end

/-! ### A run -/

/-- What a run tells the host is what its hooks tell. -/
theorem told_run (r : Request) (hooks : List (Nat × Hook)) :
    told (r.run hooks).2 = (r.toldBy hooks).map (·.call) := by
  induction hooks generalizing r with
  | nil => rfl
  | cons first rest ih =>
      rw [toldBy, List.map_append, ← told_apply, ← ih]
      exact told_append _ _

/-- **Every call attaches segments**, open until then, under the identifier that the operation had
then. -/
theorem toldBy_attach {r : Request} {hooks : List (Nat × Hook)} {t : Told}
    (h : t ∈ r.toldBy hooks) :
    t.operation.segments.closed = false ∧ ∃ now, t.call = t.operation.attachment now := by
  induction hooks generalizing r with
  | nil => contradiction
  | cons first rest ih =>
      rcases List.mem_append.mp h with h | h
      · rcases r.toldAt_cases first.1 first.2 with ⟨e, -⟩ | ⟨o, now, -, -, hc, e⟩
        · rw [e] at h
          contradiction
        · rw [e] at h
          obtain rfl := List.mem_singleton.mp h
          exact ⟨hc, now, rfl⟩
      · exact ih h

section

variable {r : Request} {i j : Nat} {hook : Hook} {rest : List (Nat × Hook)}

/-- What the host is told about an operation comes from the hooks on it. -/
theorem toldOf_cons : r.toldOf ((j, hook) :: rest) i
    = (if j = i then r.toldAt j hook else []) ++ (r.apply j hook).1.toldOf rest i := by
  rw [toldOf, toldBy, List.filter_append, filter_toldAt, toldOf]

theorem closedByHost_nil : ¬ r.ClosedByHost [] i := by
  rintro ⟨earlier, label, now, later, h, -⟩
  simp at h

/-- The host closes a tree by one of its calls, if nothing closed it before. -/
theorem closedByHost_cons : r.ClosedByHost ((j, hook) :: rest) i ↔
    (j = i ∧ (∃ label now, hook = .segment (.finish label now)) ∧ r.IsOpen i) ∨
      (r.apply j hook).1.ClosedByHost rest i := by
  constructor
  · rintro ⟨earlier, label, now, later, h, ho⟩
    cases earlier with
    | nil =>
        obtain ⟨h, -⟩ := List.cons.inj h
        obtain ⟨rfl, rfl⟩ := Prod.mk.inj h
        exact .inl ⟨rfl, ⟨label, now, rfl⟩, ho⟩
    | cons first earlier =>
        obtain ⟨rfl, hrest⟩ := List.cons.inj h
        exact .inr ⟨earlier, label, now, later, hrest, ho⟩
  · rintro (⟨rfl, ⟨label, now, rfl⟩, ho⟩ | ⟨earlier, label, now, later, rfl, ho⟩)
    · exact ⟨[], label, now, rest, rfl, ho⟩
    · exact ⟨(j, hook) :: earlier, label, now, later, rfl, ho⟩

end

/-- Closed segments stay closed, and nobody attaches or closes them again. -/
theorem closed_run {r : Request} {i : Nat} (h : ¬ r.IsOpen i) (hooks : List (Nat × Hook)) :
    ¬ (r.run hooks).1.IsOpen i ∧ r.toldOf hooks i = [] ∧ ¬ r.ClosedByHost hooks i := by
  induction hooks generalizing r with
  | nil => exact ⟨h, rfl, closedByHost_nil⟩
  | cons first rest ih =>
      obtain ⟨j, hook⟩ := first
      have hstep : ¬ (r.apply j hook).1.IsOpen i := fun ho => h (isOpen_apply.mp ho).1
      obtain ⟨hopen, htold, hhost⟩ := ih hstep
      refine ⟨hopen, ?_, ?_⟩
      · rw [toldOf_cons, htold, List.append_nil]
        split
        case isTrue e =>
          subst e
          rcases r.toldAt_cases j hook with ⟨e, -⟩ | ⟨o, now, -, ho, hc, -⟩
          · exact e
          · exact absurd ⟨o, ho, hc⟩ h
        · rfl
      · rw [closedByHost_cons, not_or]
        exact ⟨fun hc => h hc.2.2, hhost⟩

/-- **The fate of open segments in a run**: attached once, closed by the host and never attached, or
still open and not attached yet. -/
theorem fate {r : Request} {i : Nat} (h : r.IsOpen i) (hooks : List (Nat × Hook)) :
    (¬ (r.run hooks).1.IsOpen i ∧ (r.toldOf hooks i).length = 1 ∧ ¬ r.ClosedByHost hooks i) ∨
      (¬ (r.run hooks).1.IsOpen i ∧ r.toldOf hooks i = [] ∧ r.ClosedByHost hooks i) ∨
      ((r.run hooks).1.IsOpen i ∧ r.toldOf hooks i = [] ∧ ¬ r.ClosedByHost hooks i) := by
  induction hooks generalizing r with
  | nil => exact .inr (.inr ⟨h, rfl, closedByHost_nil⟩)
  | cons first rest ih =>
      obtain ⟨j, hook⟩ := first
      rw [toldOf_cons, closedByHost_cons]
      by_cases ho : (r.apply j hook).1.IsOpen i
      · -- The hook left the segments open, so it neither attached nor closed them.
        have hstay := (isOpen_apply.mp ho).2
        have htold : (if j = i then r.toldAt j hook else []) = [] := by
          split
          case isTrue e =>
            rcases r.toldAt_cases j hook with ⟨h, -⟩ | ⟨o, now, rfl, -⟩
            · exact h
            · exact absurd (hstay e) (by simp [Hook.closes])
          · rfl
        have hhost : ¬ (j = i ∧ (∃ label now, hook = .segment (.finish label now)) ∧
            r.IsOpen i) := by
          rintro ⟨e, ⟨label, now, rfl⟩, -⟩
          exact absurd (hstay e) (by simp [Hook.closes])
        rw [htold, List.nil_append, or_iff_right hhost]
        exact ih ho
      · -- The hook closed them, so whatever comes later does nothing to them.
        obtain ⟨hopen, htold, hhost⟩ := closed_run ho rest
        obtain ⟨rfl, hcl⟩ : j = i ∧ hook.closes = true := by
          by_contra hno
          exact ho (isOpen_apply.mpr ⟨h, fun e => Bool.eq_false_iff.mpr fun hc => hno ⟨e, hc⟩⟩)
        rw [htold, List.append_nil, if_pos rfl, or_iff_left hhost]
        rcases r.toldAt_cases j hook with ⟨hat, hx⟩ | ⟨o, now, rfl, -, -, hat⟩
        · refine .inr (.inl ⟨hopen, hat, rfl, ?_, h⟩)
          match hook, hcl with
          | .executed now, _ => exact absurd h (hx now rfl)
          | .segment (.finish label now), _ => exact ⟨label, now, rfl⟩
        · exact .inl ⟨hopen, by rw [hat]; rfl, fun hc => by simp at hc⟩

/-- What the host did not close is attached once, or still open at the end of the run. -/
theorem once_of_not_closedByHost {r : Request} {hooks : List (Nat × Hook)} {i : Nat}
    {o : Operation} (h : r.IsOpen i) (ho : (r.run hooks).1.operations[i]? = some o)
    (hhost : ¬ r.ClosedByHost hooks i) :
    (r.toldOf hooks i).length + (if o.segments.closed then 0 else 1) = 1 := by
  rcases fate h hooks with ⟨hcl, hlen, -⟩ | ⟨-, -, hc⟩ | ⟨hop, hnil, -⟩
  · have hc : o.segments.closed = true := Bool.not_eq_false _ ▸ fun hc => hcl ⟨o, ho, hc⟩
    rw [hc, if_pos rfl]
    exact hlen
  · exact absurd hc hhost
  · obtain ⟨o', ho', hc⟩ := hop
    rw [Option.some.inj (ho.symm.trans ho'), hc]
    exact congrArg (·.length + 1) hnil

/-- What the host closed is attached by nobody. -/
theorem never_of_closedByHost {r : Request} {hooks : List (Nat × Hook)} {i : Nat}
    (hhost : r.ClosedByHost hooks i) : r.toldOf hooks i = [] ∧ ¬ (r.run hooks).1.IsOpen i := by
  by_cases h : r.IsOpen i
  · rcases fate h hooks with ⟨-, -, hno⟩ | ⟨hcl, hnil, -⟩ | ⟨-, -, hno⟩
    · exact absurd hhost hno
    · exact ⟨hnil, hcl⟩
    · exact absurd hhost hno
  · exact absurd hhost (closed_run h hooks).2.2

/-- The root of what a run attaches carries the text that it is attached under. -/
theorem label_of_attach_run {r : Request} {hooks : List (Nat × Hook)} {text : String}
    {root : Segment.Node} (h : .attach text root ∈ told (r.run hooks).2) : root.label = text := by
  rw [told_run] at h
  obtain ⟨t, ht, e⟩ := List.mem_map.mp h
  obtain ⟨-, now, hat⟩ := toldBy_attach ht
  exact Operation.label_of_attachment (e.symm.trans hat)

end Request

end GraphTrace.Trace
