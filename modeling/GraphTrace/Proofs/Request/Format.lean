import GraphTrace.Proofs.Json.Canonical
import GraphTrace.Request.Body
import Mathlib.Data.List.Forall2

/-!
# The format of request bodies

A body is the JSON of an object, or of a nonempty array of objects (`Body.Reads`).  In each object
`query` and `operationName` are a text, null or absent, and `variables` and `extensions` an object,
null or absent, where null and absent come to the same; members of other names do not matter
(`Request.Reads`).

Whatever is not of this format has a first fault: the bytes are no JSON, the batch is empty, or an
element or a member, in the order in which they stand, is of the wrong kind (`Body.Faulty`).

Reading accepts the format and nothing else, gives the requests that it stands for, and answers
everything else with its first fault (`ofBytes_iff_format`).  Here it matters that the keys of an
object are distinct: the last member under a key has replaced the others by the time its kind is
checked.
-/

namespace GraphTrace

/-! ### Reading element by element -/

theorem error_of_map {α β ε : Type} {x : Except ε α} {f : α → β} {e : ε} (h : x.map f = .error e) :
    x = .error e := by
  cases x with
  | error e' => exact congrArg Except.error (Except.error.inj h)
  | ok a => contradiction

section

variable {α β ε : Type} {f : α → Except ε β}

/-- What a list succeeds with, its items succeed with, one by one. -/
theorem ok_of_mapM {xs : List α} {ys : List β} (h : xs.mapM f = .ok ys) :
    List.Forall₂ (fun x y => f x = .ok y) xs ys := by
  induction xs generalizing ys with
  | nil => exact Except.ok.inj h ▸ .nil
  | cons x rest ih =>
      rw [List.mapM_cons] at h
      cases hx : f x with
      | error e => rw [hx] at h; contradiction
      | ok y =>
          rw [hx] at h
          cases hrest : rest.mapM f with
          | error e => rw [hrest] at h; contradiction
          | ok tail => rw [hrest] at h; exact Except.ok.inj h ▸ .cons hx (ih hrest)

/-- A list succeeds if its items do. -/
theorem mapM_of_ok {xs : List α} {ys : List β} (h : List.Forall₂ (fun x y => f x = .ok y) xs ys) :
    xs.mapM f = .ok ys := by
  induction h with
  | nil => rfl
  | cons hx _ ih => rw [List.mapM_cons, hx, ih]; rfl

/-- The first element that is refused decides the error. -/
theorem mapM_eq_error_iff {xs : List α} {e : ε} : xs.mapM f = .error e ↔
    ∃ earlier x later, xs = earlier ++ x :: later ∧ (∀ a ∈ earlier, ∃ b, f a = .ok b) ∧
      f x = .error e := by
  constructor
  · intro h
    induction xs with
    | nil => contradiction
    | cons x rest ih =>
        rw [List.mapM_cons] at h
        cases hx : f x with
        | error e' =>
            rw [hx] at h
            exact ⟨[], x, rest, rfl, List.forall_mem_nil _,
              hx.trans (congrArg _ (Except.error.inj h))⟩
        | ok y =>
            rw [hx] at h
            cases hrest : rest.mapM f with
            | ok tail => rw [hrest] at h; contradiction
            | error e' =>
                rw [hrest] at h
                obtain ⟨earlier, a, later, rfl, hearlier, ha⟩ := ih (hrest.trans h)
                exact ⟨x :: earlier, a, later, rfl,
                  List.forall_mem_cons.mpr ⟨⟨y, hx⟩, hearlier⟩, ha⟩
  · rintro ⟨earlier, x, later, rfl, hearlier, hx⟩
    induction earlier with
    | nil => rw [List.nil_append, List.mapM_cons, hx]; rfl
    | cons a rest ih =>
        obtain ⟨⟨b, ha⟩, hrest⟩ := List.forall_mem_cons.mp hearlier
        rw [List.cons_append, List.mapM_cons, ha, ih hrest]
        rfl

end

/-- Either all elements of a list have a property, or there is a first one that has not. -/
theorem forall_or_first {α : Type} (P : α → Prop) (l : List α) : (∀ a ∈ l, P a) ∨
    ∃ earlier a later, l = earlier ++ a :: later ∧ (∀ b ∈ earlier, P b) ∧ ¬ P a := by
  induction l with
  | nil => exact .inl (List.forall_mem_nil P)
  | cons a rest ih =>
      by_cases ha : P a
      · rcases ih with h | ⟨earlier, b, later, rfl, he, hb⟩
        · exact .inl (List.forall_mem_cons.mpr ⟨ha, h⟩)
        · exact .inr ⟨a :: earlier, b, later, rfl, List.forall_mem_cons.mpr ⟨ha, he⟩, hb⟩
      · exact .inr ⟨[], a, rest, rfl, List.forall_mem_nil P, ha⟩

/-! ### The format -/

/-- The text that a member stands for, if there is a member. -/
inductive ReadsText : Option Json → Option String → Prop where
  | absent : ReadsText none none
  | null : ReadsText (some .null) none
  | text (s : String) : ReadsText (some (.string s)) (some s)

/-- The object that a member stands for, if there is a member. -/
inductive ReadsObject : Option Json → Members → Prop where
  | absent : ReadsObject none []
  | null : ReadsObject (some .null) []
  | object (members : Members) : ReadsObject (some (.object members)) members

open Json (member?)
open Json.Token (ok_of_map_eq_ok)

namespace Request

/-- The request that the members of an object stand for. -/
structure Reads (r : Request) (members : Members) : Prop where
  query : ReadsText (member? members "query") r.query
  operationName : ReadsText (member? members "operationName") r.operationName
  variableValues : ReadsObject (member? members "variables") r.variableValues
  extensions : ReadsObject (member? members "extensions") r.extensions

/-- The request that a JSON value stands for. -/
def ReadsValue (r : Request) (v : Json) : Prop := ∃ members, v = .object members ∧ r.Reads members

/-- A member of the wrong kind, and what is wrong with it. -/
inductive Misfit : String × Json → Body.Error → Prop where
  | text {key : String} {v : Json} (hk : key = "query" ∨ key = "operationName")
      (h : ∀ text?, ¬ ReadsText (some v) text?) :
      Misfit (key, v) (.mismatch v.described "a string")
  | object {key : String} {v : Json} (hk : key = "variables" ∨ key = "extensions")
      (h : ∀ members, ¬ ReadsObject (some v) members) :
      Misfit (key, v) (.mismatch v.described "a map")

/-- The first fault of a JSON value that stands for no request. -/
inductive Faulty : Json → Body.Error → Prop where
  | kind {v : Json} (h : ∀ members, v ≠ .object members) :
      Faulty v (.mismatch (Body.describedAsRequest v) "a GraphQL request object")
  | member {earlier later : Members} {m : String × Json} {e : Body.Error}
      (h : ∀ m' ∈ earlier, ∀ e', ¬ Misfit m' e') (hm : Misfit m e) :
      Faulty (.object (earlier ++ m :: later)) e

end Request

namespace Body

/-- The body that a JSON value stands for. -/
inductive Reads : Body → Json → Prop where
  | single {r : Request} {members : Members} (h : r.Reads members) :
      Reads (.single r) (.object members)
  | batch {rs : List Request} {items : List Json} (hne : items ≠ [])
      (h : List.Forall₂ (fun v r => Request.ReadsValue r v) items rs) :
      Reads (.batch rs) (.array items)

/-- The first fault of a JSON value that stands for no body. -/
inductive Faulty : Json → Error → Prop where
  | empty : Faulty (.array []) .emptyBatch
  | single {v : Json} {e : Error} (hv : ∀ items, v ≠ .array items) (h : Request.Faulty v e) :
      Faulty v e
  | batch {earlier later : List Json} {v : Json} {e : Error}
      (h : ∀ v' ∈ earlier, ∃ r, Request.ReadsValue r v') (hv : Request.Faulty v e) :
      Faulty (.array (earlier ++ v :: later)) e

/-! ### Members -/

/-- A member reads as a text just as the format says. -/
theorem optionalText_eq_ok_iff {v : Json} {text? : Option String} :
    optionalText v = .ok text? ↔ ReadsText (some v) text? := by
  constructor
  · intro h
    unfold optionalText at h
    split at h
    · exact Except.ok.inj h ▸ .null
    · exact Except.ok.inj h ▸ .text _
    · contradiction
  · rintro (_ | _ | _) <;> rfl

/-- A member reads as an object just as the format says. -/
theorem optionalObject_eq_ok_iff {v : Json} {members : Members} :
    optionalObject v = .ok members ↔ ReadsObject (some v) members := by
  constructor
  · intro h
    unfold optionalObject at h
    split at h
    · exact Except.ok.inj h ▸ .null
    · exact Except.ok.inj h ▸ .object _
    · contradiction
  · rintro (_ | _ | _) <;> rfl

/-- A text is refused as something else than a string. -/
theorem error_of_optionalText {v : Json} {e : Error} (h : optionalText v = .error e) :
    e = .mismatch v.described "a string" := by
  unfold optionalText at h
  split at h
  · contradiction
  · contradiction
  · exact (Except.error.inj h).symm

theorem error_of_optionalObject {v : Json} {e : Error} (h : optionalObject v = .error e) :
    e = .mismatch v.described "a map" := by
  unfold optionalObject at h
  split at h
  · contradiction
  · contradiction
  · exact (Except.error.inj h).symm

/-- What is refused as a text does not fit its key. -/
theorem misfit_of_optionalText {key : String} {v : Json} {e : Error}
    (hk : key = "query" ∨ key = "operationName") (h : optionalText v = .error e) :
    Request.Misfit (key, v) e := by
  obtain rfl := error_of_optionalText h
  refine .text hk fun text? ht => ?_
  rw [optionalText_eq_ok_iff.mpr ht] at h
  contradiction

theorem misfit_of_optionalObject {key : String} {v : Json} {e : Error}
    (hk : key = "variables" ∨ key = "extensions") (h : optionalObject v = .error e) :
    Request.Misfit (key, v) e := by
  obtain rfl := error_of_optionalObject h
  refine .object hk fun members hm => ?_
  rw [optionalObject_eq_ok_iff.mpr hm] at h
  contradiction

/-- **A member is refused for its own fault**, whatever was read before it. -/
theorem readMember_eq_error_iff {r : Request} {m : String × Json} {e : Error} :
    readMember r m = .error e ↔ Request.Misfit m e := by
  constructor
  · intro h
    obtain ⟨key, v⟩ := m
    unfold readMember at h
    split at h
    case h_1 hk => exact misfit_of_optionalText (.inl hk) (error_of_map h)
    case h_2 hk => exact misfit_of_optionalText (.inr hk) (error_of_map h)
    case h_3 hk => exact misfit_of_optionalObject (.inl hk) (error_of_map h)
    case h_4 hk => exact misfit_of_optionalObject (.inr hk) (error_of_map h)
    case h_5 => contradiction
  · rintro (⟨hk, h⟩ | ⟨hk, h⟩)
    case text v =>
      have hv : optionalText v = .error (.mismatch v.described "a string") := by
        cases hv : optionalText v with
        | ok text? => exact absurd (optionalText_eq_ok_iff.mp hv) (h text?)
        | error e => rw [error_of_optionalText hv]
      rcases hk with rfl | rfl
      · exact congrArg (Except.map _) hv
      · exact congrArg (Except.map _) hv
    case object v =>
      have hv : optionalObject v = .error (.mismatch v.described "a map") := by
        cases hv : optionalObject v with
        | ok members => exact absurd (optionalObject_eq_ok_iff.mp hv) (h members)
        | error e => rw [error_of_optionalObject hv]
      rcases hk with rfl | rfl
      · exact congrArg (Except.map _) hv
      · exact congrArg (Except.map _) hv

/-- A later member is found only if no earlier one has its key. -/
theorem member?_concat (members : Members) (m : String × Json) (key : String) :
    member? (members ++ [m]) key
      = (member? members key).or (if m.1 = key then some m.2 else none) := by
  rw [member?, List.find?_append, Option.map_or, ← member?, List.find?_singleton]
  by_cases h : m.1 = key <;> simp [h]

theorem member?_eq_none {members : Members} {key : String} (h : key ∉ members.map (·.1)) :
    member? members key = none := by
  rw [member?, Option.map_eq_none_iff, List.find?_eq_none]
  intro m hm e
  exact h (List.mem_map.mpr ⟨m, hm, by simpa using e⟩)

/-- **A member that is taken in** stands for what the request then has under its key. -/
theorem reads_readMember {r r' : Request} {members : Members} {m : String × Json}
    (h : r.Reads members) (hm : m.1 ∉ members.map (·.1)) (hr : readMember r m = .ok r') :
    r'.Reads (members ++ [m]) := by
  have hown : member? (members ++ [m]) m.1 = some m.2 := by
    rw [member?_concat, member?_eq_none hm, if_pos rfl, Option.none_or]
  have hother : ∀ {key : String}, m.1 ≠ key → member? (members ++ [m]) key = member? members key :=
    fun hne => by rw [member?_concat, if_neg hne, Option.or_none]
  -- What stands under the other keys stands there still.
  have text : ∀ {key : String} {text? : Option String}, m.1 ≠ key →
      ReadsText (member? members key) text? → ReadsText (member? (members ++ [m]) key) text? :=
    fun hne h => by rw [hother hne]; exact h
  have object : ∀ {key : String} {read : Members}, m.1 ≠ key →
      ReadsObject (member? members key) read → ReadsObject (member? (members ++ [m]) key) read :=
    fun hne h => by rw [hother hne]; exact h
  obtain ⟨query, operationName, variableValues, extensions⟩ := h
  unfold readMember at hr
  split at hr
  case h_1 hk =>
    obtain ⟨text?, ht, rfl⟩ := ok_of_map_eq_ok hr
    rw [hk] at hown text object
    exact ⟨by rw [hown]; exact optionalText_eq_ok_iff.mp ht, text (by decide) operationName,
      object (by decide) variableValues, object (by decide) extensions⟩
  case h_2 hk =>
    obtain ⟨text?, ht, rfl⟩ := ok_of_map_eq_ok hr
    rw [hk] at hown text object
    exact ⟨text (by decide) query, by rw [hown]; exact optionalText_eq_ok_iff.mp ht,
      object (by decide) variableValues, object (by decide) extensions⟩
  case h_3 hk =>
    obtain ⟨read, ho, rfl⟩ := ok_of_map_eq_ok hr
    rw [hk] at hown text object
    exact ⟨text (by decide) query, text (by decide) operationName,
      by rw [hown]; exact optionalObject_eq_ok_iff.mp ho, object (by decide) extensions⟩
  case h_4 hk =>
    obtain ⟨read, ho, rfl⟩ := ok_of_map_eq_ok hr
    rw [hk] at hown text object
    exact ⟨text (by decide) query, text (by decide) operationName,
      object (by decide) variableValues, by rw [hown]; exact optionalObject_eq_ok_iff.mp ho⟩
  case h_5 hquery hoperationName hvariables hextensions =>
    obtain rfl := Except.ok.inj hr
    exact ⟨text hquery query, text hoperationName operationName, object hvariables variableValues,
      object hextensions extensions⟩

/-! ### Requests -/

/-- Members without a fault are all taken in. -/
theorem exists_of_fit {members : Members} (h : ∀ m ∈ members, ∀ e, ¬ Request.Misfit m e)
    (r : Request) : ∃ r', members.foldlM readMember r = .ok r' := by
  induction members generalizing r with
  | nil => exact ⟨r, rfl⟩
  | cons m rest ih =>
      obtain ⟨hm, hrest⟩ := List.forall_mem_cons.mp h
      cases e : readMember r m with
      | error err => exact absurd (readMember_eq_error_iff.mp e) (hm err)
      | ok r' =>
          obtain ⟨r'', hr⟩ := ih hrest r'
          exact ⟨r'', by rw [List.foldlM_cons, e]; exact hr⟩

/-- The first member with a fault decides the error. -/
theorem foldlM_eq_error {earlier later : Members} {m : String × Json} {e : Error}
    (h : ∀ m' ∈ earlier, ∀ e', ¬ Request.Misfit m' e') (hm : Request.Misfit m e) (r : Request) :
    (earlier ++ m :: later).foldlM readMember r = .error e := by
  obtain ⟨r', hr⟩ := exists_of_fit h r
  rw [List.foldlM_append, hr]
  show (readMember r' m >>= _) = _
  rw [readMember_eq_error_iff.mpr hm]
  rfl

/-- **Members under distinct keys** stand for the request that reading them gives. -/
theorem reads_foldlM {done rest : Members} {r r' : Request} (hk : ((done ++ rest).map (·.1)).Nodup)
    (h : r.Reads done) (hr : rest.foldlM readMember r = .ok r') : r'.Reads (done ++ rest) := by
  induction rest generalizing done r with
  | nil =>
      obtain rfl := Except.ok.inj hr
      rw [List.append_nil]
      exact h
  | cons m rest ih =>
      rw [List.foldlM_cons] at hr
      cases e : readMember r m with
      | error err => rw [e] at hr; contradiction
      | ok next =>
          rw [e] at hr
          have hm : m.1 ∉ done.map (·.1) := by
            rw [List.map_append, List.map_cons, List.nodup_append] at hk
            exact fun hmem => hk.2.2 _ hmem _ List.mem_cons_self rfl
          rw [List.append_cons] at hk ⊢
          exact ih hk (reads_readMember h hm e) hr

/-- Where no key comes twice, every member is found. -/
theorem member?_of_mem {members : Members} {m : String × Json} (hk : (members.map (·.1)).Nodup)
    (hm : m ∈ members) : member? members m.1 = some m.2 := by
  induction members with
  | nil => contradiction
  | cons first rest ih =>
      obtain ⟨hfirst, hrest⟩ := List.nodup_cons.mp hk
      rcases List.mem_cons.mp hm with rfl | hm
      · simp [member?]
      · have hne : first.1 ≠ m.1 := fun e => hfirst (List.mem_map.mpr ⟨m, hm, e.symm⟩)
        rw [← ih hrest hm, member?, List.find?_cons_of_neg (by simpa using hne), ← member?]

/-- Members that stand for a request have no fault. -/
theorem fit_of_reads {members : Members} {r : Request} (hk : (members.map (·.1)).Nodup)
    (h : r.Reads members) : ∀ m ∈ members, ∀ e, ¬ Request.Misfit m e := by
  rintro m hm e (⟨rfl | rfl, hno⟩ | ⟨rfl | rfl, hno⟩)
  · exact hno _ (member?_of_mem hk hm ▸ h.query)
  · exact hno _ (member?_of_mem hk hm ▸ h.operationName)
  · exact hno _ (member?_of_mem hk hm ▸ h.variableValues)
  · exact hno _ (member?_of_mem hk hm ▸ h.extensions)

end Body

/-- A value reads as one text. -/
theorem ReadsText.unique {v? : Option Json} {a b : Option String} (ha : ReadsText v? a)
    (hb : ReadsText v? b) : a = b := by
  cases ha <;> cases hb <;> rfl

theorem ReadsObject.unique {v? : Option Json} {a b : Members} (ha : ReadsObject v? a)
    (hb : ReadsObject v? b) : a = b := by
  cases ha <;> cases hb <;> rfl

/-- Members stand for one request. -/
theorem Request.Reads.unique {members : Members} {r r' : Request} (h : r.Reads members)
    (h' : r'.Reads members) : r = r' := by
  cases r
  cases r'
  obtain rfl := h.query.unique h'.query
  obtain rfl := h.operationName.unique h'.operationName
  obtain rfl := h.variableValues.unique h'.variableValues
  obtain rfl := h.extensions.unique h'.extensions
  rfl

namespace Body

section

variable {limit : Nat} {v : Json}

/-- **A request is read** from what stands for one. -/
theorem readRequest_eq_ok_iff (hv : Json.Canonical limit v) {r : Request} :
    readRequest v = .ok r ↔ r.ReadsValue v := by
  cases v with
  | object members =>
      have hempty : Request.Reads {} [] := ⟨.absent, .absent, .absent, .absent⟩
      have hread : ∀ {r : Request}, members.foldlM readMember {} = .ok r → r.Reads members :=
        fun hr => List.nil_append members ▸ reads_foldlM (by simpa using hv.nodup_keys) hempty hr
      constructor
      · intro hr
        exact ⟨members, rfl, hread hr⟩
      · rintro ⟨members', e, h⟩
        obtain rfl := Json.object.inj e
        obtain ⟨r', hr⟩ := exists_of_fit (fit_of_reads hv.nodup_keys h) {}
        rw [h.unique (hread hr)]
        exact hr
  | null | boolean | number | string | array =>
      constructor
      · intro h
        contradiction
      · rintro ⟨_, e, -⟩
        contradiction

/-- **A request is refused** for its first fault. -/
theorem readRequest_eq_error_iff {e : Error} : readRequest v = .error e ↔ Request.Faulty v e := by
  constructor
  · intro h
    cases v with
    | object members =>
        rcases forall_or_first (fun m => ∀ e, ¬ Request.Misfit m e) members with
          hfit | ⟨earlier, m, later, rfl, hearlier, hm⟩
        · obtain ⟨r, hr⟩ := exists_of_fit hfit {}
          exact nomatch hr.symm.trans h
        · obtain ⟨e', hm⟩ := not_forall_not.mp hm
          obtain rfl := Except.error.inj ((foldlM_eq_error hearlier hm {}).symm.trans h)
          exact .member hearlier hm
    | null | boolean | number | string | array =>
        obtain rfl := Except.error.inj h
        exact .kind fun _ e => nomatch e
  · rintro (h | ⟨hearlier, hm⟩)
    · cases v with
      | object members => exact absurd rfl (h members)
      | null | boolean | number | string | array => rfl
    · exact foldlM_eq_error hearlier hm {}

/-! ### Bodies -/

/-- Whatever is no array is read as a single request. -/
theorem ofJson_eq_single {v : Json} (h : ∀ items, v ≠ .array items) :
    ofJson v = (readRequest v).map .single := by
  cases v with
  | array items => exact absurd rfl (h items)
  | null | boolean | number | string | object => rfl

/-- An array that is not empty is read item by item. -/
theorem ofJson_eq_batch {items : List Json} (h : items ≠ []) :
    ofJson (.array items) = (items.mapM readRequest).map .batch := by
  cases items with
  | nil => contradiction
  | cons => rfl

/-- **A body is read** from what stands for one. -/
theorem ofJson_eq_ok_iff (hv : Json.Canonical limit v) {body : Body} :
    ofJson v = .ok body ↔ body.Reads v := by
  constructor
  · intro h
    unfold ofJson at h
    split at h
    case h_1 => contradiction
    case h_2 items hne =>
      obtain ⟨rs, hrs, rfl⟩ := ok_of_map_eq_ok h
      obtain ⟨inner, -, hitems⟩ := hv.item
      have hreads := (List.forall₂_and_left items rs).mpr ⟨hitems, ok_of_mapM hrs⟩
      exact .batch hne (hreads.imp fun v r h => (readRequest_eq_ok_iff h.1).mp h.2)
    case h_3 =>
      obtain ⟨r, hr, rfl⟩ := ok_of_map_eq_ok h
      obtain ⟨members, rfl, hreads⟩ := (readRequest_eq_ok_iff hv).mp hr
      exact .single hreads
  · rintro h
    cases h with
    | @single r members h =>
        have hr := (readRequest_eq_ok_iff hv).mpr ⟨members, rfl, h⟩
        exact congrArg (Except.map Body.single) hr
    | batch hne h =>
        obtain ⟨inner, -, hitems⟩ := hv.item
        have hreads := (List.forall₂_and_left _ _).mpr ⟨hitems, h⟩
        have hrs := mapM_of_ok (f := readRequest)
          (hreads.imp fun v r h => (readRequest_eq_ok_iff h.1).mpr h.2)
        rw [ofJson_eq_batch hne, hrs]
        rfl

/-- **A body is refused** for its first fault. -/
theorem ofJson_eq_error_iff (hv : Json.Canonical limit v) {e : Error} :
    ofJson v = .error e ↔ Faulty v e := by
  constructor
  · intro h
    unfold ofJson at h
    split at h
    case h_1 => exact Except.error.inj h ▸ .empty
    case h_2 items hne =>
      obtain ⟨inner, -, hitems⟩ := hv.item
      obtain ⟨earlier, v, later, rfl, hearlier, he⟩ := mapM_eq_error_iff.mp (error_of_map h)
      refine .batch (fun v' hv' => ?_) (readRequest_eq_error_iff.mp he)
      obtain ⟨r, hr⟩ := hearlier v' hv'
      exact ⟨r, (readRequest_eq_ok_iff (hitems v' (List.mem_append_left _ hv'))).mp hr⟩
    case h_3 hno => exact .single hno (readRequest_eq_error_iff.mp (error_of_map h))
  · intro h
    cases h with
    | empty => rfl
    | single hno h =>
        rw [ofJson_eq_single hno, readRequest_eq_error_iff.mpr h]
        rfl
    | @batch earlier later v _ h hbad =>
        obtain ⟨inner, -, hitems⟩ := hv.item
        have hmap : (earlier ++ v :: later).mapM readRequest = .error e := by
          refine mapM_eq_error_iff.mpr ⟨earlier, v, later, rfl, fun v' hv' => ?_,
            readRequest_eq_error_iff.mpr hbad⟩
          obtain ⟨r, hr⟩ := h v' hv'
          exact ⟨r, (readRequest_eq_ok_iff (hitems v' (List.mem_append_left _ hv'))).mpr hr⟩
        rw [ofJson_eq_batch (by simp), hmap]
        rfl

end

/-- A member that does not fit is not reported as an empty batch. -/
theorem not_emptyBatch_of_misfit {m : String × Json} {e : Error} (h : Request.Misfit m e) :
    e ≠ .emptyBatch := by
  cases h <;> exact nofun

theorem not_emptyBatch_of_faulty {v : Json} {e : Error} (h : Request.Faulty v e) :
    e ≠ .emptyBatch := by
  cases h with
  | kind => exact nofun
  | member _ hm => exact not_emptyBatch_of_misfit hm

/-- Only the empty array is an empty batch. -/
theorem faulty_emptyBatch_iff {v : Json} : Faulty v .emptyBatch ↔ v = .array [] := by
  constructor
  · intro h
    cases h with
    | empty => rfl
    | single _ h => exact absurd rfl (not_emptyBatch_of_faulty h)
    | batch _ h => exact absurd rfl (not_emptyBatch_of_faulty h)
  · rintro rfl
    exact .empty

/-- **Bytes are read** as what their JSON value stands for. -/
theorem ofBytes_eq_ok_iff {bytes : ByteArray} {body : Body} :
    ofBytes bytes = .ok body ↔ ∃ v, Json.ofBytes bytes = .ok v ∧ body.Reads v := by
  unfold ofBytes
  cases hjson : Json.ofBytes bytes with
  | error fault => simp
  | ok v => simpa using ofJson_eq_ok_iff (Json.canonical_of_ofBytes hjson)

/-- **Bytes are refused** since they are no JSON, or for the first fault of their JSON value. -/
theorem ofBytes_eq_error_iff {bytes : ByteArray} {e : Error} : ofBytes bytes = .error e ↔
    (∃ fault, Json.ofBytes bytes = .error fault ∧ e = .unreadable fault) ∨
      ∃ v, Json.ofBytes bytes = .ok v ∧ Faulty v e := by
  unfold ofBytes
  cases hjson : Json.ofBytes bytes with
  | error fault => simp [eq_comm]
  | ok v => simpa using ofJson_eq_error_iff (Json.canonical_of_ofBytes hjson)

/-- An empty batch is an empty array. -/
theorem ofBytes_eq_emptyBatch_iff {bytes : ByteArray} :
    ofBytes bytes = .error .emptyBatch ↔ Json.ofBytes bytes = .ok (.array []) := by
  rw [ofBytes_eq_error_iff]
  constructor
  · rintro (⟨fault, -, e⟩ | ⟨v, hv, hfault⟩)
    · contradiction
    · rw [hv, faulty_emptyBatch_iff.mp hfault]
  · exact fun h => .inr ⟨_, h, .empty⟩

/-- Every other fault is a malformed body. -/
theorem headline_eq_malformed_iff {e : Error} :
    e.headline = "request body was malformed" ↔ e ≠ .emptyBatch := by
  cases e with
  | unreadable | mismatch => exact ⟨fun _ => nofun, fun _ => rfl⟩
  | emptyBatch => exact ⟨fun h => absurd h (by decide), fun h => absurd rfl h⟩

/-- **The format of bodies.**  Bytes are read as a body just if they are the JSON of an object or of
a nonempty array of objects whose members are of the right kinds, and then as the requests that
these stand for; otherwise they are refused as a whole, for their first fault.  Only the empty array
is an empty batch, and everything else that is refused is malformed. -/
theorem ofBytes_iff_format (bytes : ByteArray) :
    (∀ body, ofBytes bytes = .ok body ↔ ∃ v, Json.ofBytes bytes = .ok v ∧ body.Reads v) ∧
      (∀ e, ofBytes bytes = .error e ↔
        (∃ fault, Json.ofBytes bytes = .error fault ∧ e = .unreadable fault) ∨
          ∃ v, Json.ofBytes bytes = .ok v ∧ Faulty v e) ∧
      (ofBytes bytes = .error .emptyBatch ↔ Json.ofBytes bytes = .ok (.array [])) ∧
      ∀ e : Error, e.headline = "request body was malformed" ↔ e ≠ .emptyBatch :=
  ⟨fun _ => ofBytes_eq_ok_iff, fun _ => ofBytes_eq_error_iff, ofBytes_eq_emptyBatch_iff,
    fun _ => headline_eq_malformed_iff⟩

end Body

end GraphTrace
