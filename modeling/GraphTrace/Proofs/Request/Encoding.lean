import GraphTrace.Proofs.Json.RoundTrip
import GraphTrace.Proofs.Request.Format

/-!
# Reading a body that was written

Writing leaves out the members of a request that are absent or empty, and it does not mark whether
a body is a batch.  Reading takes a member that is not there for absent or empty, and an array for a
batch.  So a body stands for what it is written as (`reads_toJson`), and reading its bytes gives it
back (`ofBytes_toJson`).

This takes a body that can be written as JSON and read again (`Body.Canonical`): a batch has
requests, and variables and extensions are objects of distinct keys and of no more containers inside
one another than reading allows.  A body that was read is of this kind (`canonical_of_ofBytes`), so
writing and reading it again changes nothing.
-/

namespace GraphTrace

open Json (member? nestingLimit)

/-! ### Bodies that can be written and read -/

/-- A request whose variables and extensions are JSON objects of at most `limit` containers inside
one another. -/
structure Request.Canonical (limit : Nat) (r : Request) : Prop where
  variableValues : Json.Canonical limit (.object r.variableValues)
  extensions : Json.Canonical limit (.object r.extensions)

/-- A body that has requests, all of JSON objects that may stand where they stand in the body. -/
inductive Body.Canonical : Body → Prop where
  | single {r : Request} (h : r.Canonical (nestingLimit - 1)) : Canonical (.single r)
  | batch {rs : List Request} (hne : rs ≠ []) (h : ∀ r ∈ rs, r.Canonical (nestingLimit - 2)) :
      Canonical (.batch rs)

/-! ### What a request is written as -/

namespace Request

theorem member?_append (members members' : Members) (key : String) :
    member? (members ++ members') key = (member? members key).or (member? members' key) := by
  rw [member?, List.find?_append, Option.map_or]
  rfl

/-- A text is written under its key, if there is one. -/
theorem member?_textMember (key key' : String) (text? : Option String) :
    member? (textMember key text?) key' = if key = key' then text?.map .string else none := by
  by_cases h : key = key'
  · cases text? <;> simp [textMember, member?, h]
  · cases text? <;> simp [textMember, member?, h]

/-- An object is written under its key, if it has members. -/
theorem member?_objectMember (key key' : String) (members : Members) :
    member? (objectMember key members) key'
      = if key = key' ∧ members ≠ [] then some (.object members) else none := by
  by_cases h : key = key'
  · cases members <;> simp [objectMember, member?, h]
  · cases members <;> simp [objectMember, member?, h]

/-- A text reads as itself. -/
theorem readsText_map (text? : Option String) : ReadsText (text?.map .string) text? := by
  cases text? with
  | none => exact .absent
  | some text => exact .text text

/-- A missing object reads as one without members. -/
theorem readsObject_of_ne (members : Members) :
    ReadsObject (if members ≠ [] then some (.object members) else none) members := by
  cases members with
  | nil => exact .absent
  | cons => exact .object _

/-- The members that a request is written as. -/
def written (r : Request) : Members :=
  textMember "query" r.query ++ textMember "operationName" r.operationName
    ++ objectMember "variables" r.variableValues ++ objectMember "extensions" r.extensions

/-- **A request stands for what it is written as.** -/
theorem reads_written (r : Request) : r.Reads r.written := by
  refine ⟨?_, ?_, ?_, ?_⟩
  all_goals
    simp only [written, member?_append, member?_textMember, member?_objectMember]
  · simpa using readsText_map r.query
  · simpa using readsText_map r.operationName
  · simpa using readsObject_of_ne r.variableValues
  · simpa using readsObject_of_ne r.extensions

theorem keys_textMember (key : String) (text? : Option String) :
    ((textMember key text?).map (·.1)).Sublist [key] := by
  cases text? with
  | none => exact List.nil_sublist _
  | some text => exact List.Sublist.refl _

theorem keys_objectMember (key : String) (members : Members) :
    ((objectMember key members).map (·.1)).Sublist [key] := by
  cases members with
  | nil => exact List.nil_sublist _
  | cons => exact List.Sublist.refl _

/-- A request is written with its four keys at most. -/
theorem keys_written (r : Request) :
    (r.written.map (·.1)).Sublist ["query", "operationName", "variables", "extensions"] := by
  simp only [written, List.map_append]
  exact (((keys_textMember _ _).append (keys_textMember _ _)).append (keys_objectMember _ _)).append
    (keys_objectMember _ _)

theorem mem_textMember {key : String} {text? : Option String} {m : String × Json}
    (h : m ∈ textMember key text?) : ∃ text, m.2 = .string text := by
  obtain ⟨text, -, rfl⟩ := List.mem_map.mp h
  exact ⟨text, rfl⟩

theorem mem_objectMember {key : String} {members : Members} {m : String × Json}
    (h : m ∈ objectMember key members) : m.2 = .object members := by
  unfold objectMember at h
  split at h
  · contradiction
  · rw [List.mem_singleton.mp h]

/-- **A canonical request** is written as a canonical value. -/
theorem Canonical.toJson {limit : Nat} {r : Request} (h : r.Canonical limit) :
    Json.Canonical (limit + 1) r.toJson := by
  refine .object ((keys_written r).nodup (by decide)) fun m hm => ?_
  simp only [List.mem_append] at hm
  rcases hm with ((hm | hm) | hm) | hm
  · obtain ⟨text, e⟩ := mem_textMember hm
    exact e ▸ .string text
  · obtain ⟨text, e⟩ := mem_textMember hm
    exact e ▸ .string text
  · exact mem_objectMember hm ▸ h.variableValues
  · exact mem_objectMember hm ▸ h.extensions

/-- The object that a canonical member stands for is canonical. -/
theorem canonical_of_readsObject {limit : Nat} {v? : Option Json} {members : Members}
    (hv : ∀ v ∈ v?, Json.Canonical (limit + 1) v) (h : ReadsObject v? members) :
    Json.Canonical (limit + 1) (.object members) := by
  cases h with
  | absent | null => exact .object .nil (List.forall_mem_nil _)
  | object => exact hv _ rfl

/-- **A request that was read** is canonical. -/
theorem canonical_of_reads {limit : Nat} {r : Request} {members : Members}
    (hv : Json.Canonical (limit + 2) (.object members)) (h : r.Reads members) :
    r.Canonical (limit + 1) := by
  cases hv with
  | object _ hm =>
      have member : ∀ {key : String}, ∀ v ∈ member? members key, Json.Canonical (limit + 1) v := by
        intro key v hv
        obtain ⟨m, hfind, rfl⟩ := Option.map_eq_some_iff.mp hv
        exact hm m (List.mem_of_find?_eq_some hfind)
      exact ⟨canonical_of_readsObject member h.variableValues,
        canonical_of_readsObject member h.extensions⟩

end Request

/-! ### Bodies -/

namespace Body

/-- **A body stands for what it is written as**, if it has requests. -/
theorem reads_toJson {body : Body} (h : body.Canonical) : body.Reads body.toJson := by
  cases h with
  | single => exact .single (Request.reads_written _)
  | @batch rs hne =>
      refine .batch (fun e => hne (List.map_eq_nil_iff.mp e)) ?_
      rw [List.forall₂_map_left_iff]
      exact List.forall₂_same.mpr fun r _ => ⟨r.written, rfl, Request.reads_written r⟩

/-- **A canonical body** is written as a canonical value. -/
theorem Canonical.toJson {body : Body} (h : body.Canonical) :
    Json.Canonical nestingLimit body.toJson := by
  cases h with
  | single h => exact h.toJson
  | batch _ h =>
      refine .array fun item hi => ?_
      obtain ⟨r, hr, rfl⟩ := List.mem_map.mp hi
      exact (h r hr).toJson

theorem exists_of_forall₂ {α β : Type} {R : α → β → Prop} {xs : List α} {ys : List β} {y : β}
    (h : List.Forall₂ R xs ys) (hy : y ∈ ys) : ∃ x ∈ xs, R x y := by
  induction h with
  | nil => contradiction
  | @cons x y' xs ys hxy _ ih =>
      rcases List.mem_cons.mp hy with rfl | hy
      · exact ⟨x, List.mem_cons_self, hxy⟩
      · obtain ⟨x', hx', hxy'⟩ := ih hy
        exact ⟨x', List.mem_cons_of_mem _ hx', hxy'⟩

/-- **A body that was read** is canonical. -/
theorem canonical_of_ofBytes {bytes : ByteArray} {body : Body} (h : ofBytes bytes = .ok body) :
    body.Canonical := by
  obtain ⟨v, hbytes, hreads⟩ := ofBytes_eq_ok_iff.mp h
  have hv := Json.canonical_of_ofBytes hbytes
  cases hreads with
  | single hreads => exact .single (Request.canonical_of_reads hv hreads)
  | batch hne hreads =>
      refine .batch (fun e => hne (List.forall₂_nil_right_iff.mp (e ▸ hreads))) fun r hr => ?_
      obtain ⟨inner, hinner, hitems⟩ := hv.item
      obtain ⟨item, hitem, members, rfl, hreads⟩ := exists_of_forall₂ hreads hr
      obtain rfl : inner = 126 := by simpa [nestingLimit] using hinner.symm
      exact Request.canonical_of_reads (hitems _ hitem) hreads

/-- A body as it is sent. -/
def toBytes (body : Body) : ByteArray := body.toJson.text.toUTF8

/-- A body that can be read back is read back. -/
theorem ofBytes_of_canonical {body : Body} (h : body.Canonical) :
    ofBytes body.toBytes = .ok body := by
  rw [ofBytes, toBytes, Json.ofBytes_toUTF8 h.toJson]
  exact (ofJson_eq_ok_iff h.toJson).mpr (reads_toJson h)

/-- A request of a body that was read is read alone as it was read there. -/
theorem ofBytes_single {bytes : ByteArray} {body : Body} {r : Request}
    (h : ofBytes bytes = .ok body) (hr : r ∈ body.requests) :
    ofBytes (Body.single r).toBytes = .ok (.single r) := by
  refine ofBytes_of_canonical (.single ?_)
  cases canonical_of_ofBytes h with
  | single hcanonical => exact List.mem_singleton.mp hr ▸ hcanonical
  | batch _ hcanonical =>
      have hdeep := hcanonical r hr
      exact ⟨hdeep.variableValues.mono (by decide), hdeep.extensions.mono (by decide)⟩

/-- **Reading undoes writing**, and writing a body that was read and reading it again changes
nothing. -/
theorem ofBytes_toBytes :
    (∀ body : Body, body.Canonical → ofBytes body.toBytes = .ok body) ∧
      ∀ bytes body, ofBytes bytes = .ok body → ofBytes body.toBytes = .ok body :=
  ⟨fun _ h => ofBytes_of_canonical h, fun _ _ h => ofBytes_of_canonical (canonical_of_ofBytes h)⟩

/-- A batch with a name alone, a text alone, and variables with a null and a number. -/
def mixedBatch : Body :=
  .batch [{ operationName := some "Users" }, { query := some "\x7b id \x7d" },
    { variableValues := [("id", .null), ("first", .integer 10)] }]

/-- A batch whose requests differ in what they leave out. -/
theorem ofBytes_mixedBatch :
    mixedBatch.Canonical ∧ ofBytes mixedBatch.toBytes = .ok mixedBatch := by
  have hempty : Json.Canonical 125 (.object []) := .object .nil (List.forall_mem_nil _)
  have hfirst : (Json.Number.integer 10).Canonical := rfl
  have hvariables : Json.Canonical 125 (.object [("id", .null), ("first", .integer 10)]) := by
    refine .object (by decide) fun m hm => ?_
    rcases List.mem_pair.mp hm with rfl | rfl
    · exact .null
    · exact .number hfirst
  have hcanonical : mixedBatch.Canonical := by
    refine .batch (List.cons_ne_nil _ _) fun r hr => ?_
    simp only [List.mem_cons, List.not_mem_nil, or_false] at hr
    rcases hr with rfl | rfl | rfl
    · exact ⟨hempty, hempty⟩
    · exact ⟨hempty, hempty⟩
    · exact ⟨hvariables, hempty⟩
  have hread := ofBytes_toBytes.1 mixedBatch hcanonical
  exact ⟨hcanonical, ofBytes_toBytes.2 _ _ hread⟩

end Body

end GraphTrace
