import GraphTrace.Proofs.Json.Scan

/-!
# Reading what was written

The reader goes over the lexemes of a value to the state in which the value is done with, whatever
surrounds it (`run_tokens`): the items of an array are taken up one after the other, and so are the
members of an object, which are new each time since their keys are distinct.  The value must not
stand too deep.

So bytes that write a canonical value are read as the value (`ofBytes_toUTF8`), and what was read
from any bytes is a canonical value, so that reading is undone by writing.  Where no limit is set,
a value of any depth is read from its text, and distinct values have distinct texts
(`text_injective`).
-/

namespace GraphTrace.Json

/-- The state after lexemes. -/
def run (limit : Nat) (s : State × List Frame) (ts : List Token) :
    Except Fault (State × List Frame) :=
  ts.foldlM (State.step limit) s

section

variable {limit : Nat} {s s' : State × List Frame} {t : Token} {ts ts' : List Token}

theorem run_cons (h : State.step limit s t = .ok s') :
    run limit s (t :: ts) = run limit s' ts := by
  rw [run, List.foldlM_cons, h]
  rfl

theorem run_append (h : run limit s ts = .ok s') :
    run limit s (ts ++ ts') = run limit s' ts' := by
  unfold run at h ⊢
  rw [List.foldlM_append, h]
  rfl

end

/-- A value is gone over to the state in which it is done with, unless it stands too deep. -/
def RunsThrough (limit depth : Nat) (v : Json) : Prop :=
  ∀ stack : List Frame, stack.length + depth ≤ limit →
    run limit (.value, stack) v.tokens = .ok (State.after v stack)

section

variable {limit depth : Nat} {stack : List Frame}

/-- The items of an array start with the tokens of the first one. -/
theorem itemTokens_cons (item : Json) (items : List Json) :
    ∃ ts, itemTokens (item :: items) = item.tokens ++ ts := by
  cases items with
  | nil => exact ⟨_, rfl⟩
  | cons next items => exact ⟨_, rfl⟩

/-- The first item of an array is gone over as any other. -/
theorem run_firstItem (item : Json) (items : List Json) :
    run limit (.firstItem, stack) (itemTokens (item :: items))
      = run limit (.value, .array [] :: stack) (itemTokens (item :: items)) := by
  obtain ⟨ts, e⟩ := itemTokens_cons item items
  rw [e]
  -- The end of an array, which alone is treated apart, is not the first lexeme of a value.
  cases item with
  | null | boolean | number | string | array | object => rfl

/-- The first member of an object is gone over as any other. -/
theorem run_firstKey (m : String × Json) (members : List (String × Json)) :
    run limit (.firstKey, stack) (memberTokens (m :: members))
      = run limit (.key [], stack) (memberTokens (m :: members)) := by
  cases members with
  | nil | cons => rfl

/-- The items of an array are read to its end. -/
theorem run_itemTokens {done items : List Json} (hne : items ≠ [])
    (h : ∀ item ∈ items, RunsThrough limit depth item) (hd : stack.length + (depth + 1) ≤ limit) :
    run limit (.value, .array done :: stack) (itemTokens items)
      = .ok (State.after (.array (done ++ items)) stack) := by
  induction items generalizing done with
  | nil => contradiction
  | cons item items ih =>
      obtain ⟨hitem, hitems⟩ := List.forall_mem_cons.mp h
      have hitem := hitem (.array done :: stack) (by simp only [List.length_cons]; omega)
      cases items with
      | nil => exact run_append hitem
      | cons next items =>
          have hrest := @ih (done ++ [item]) (List.cons_ne_nil _ _) hitems
          rw [List.append_assoc] at hrest
          exact (run_append hitem).trans ((run_cons rfl).trans hrest)

/-- A new key goes behind the others. -/
theorem setMember_of_notMem {key : String} {members : List (String × Json)} (value : Json)
    (h : key ∉ members.map (·.1)) : setMember key value members = members ++ [(key, value)] := by
  induction members with
  | nil => rfl
  | cons m members ih =>
      obtain ⟨hm, hmembers⟩ := not_or.mp fun e => h (List.mem_cons.mpr e)
      rw [setMember, if_neg (by simpa using Ne.symm hm), ih hmembers, List.cons_append]

/-- The members of an object are read to its end. -/
theorem run_memberTokens {done members : List (String × Json)} (hne : members ≠ [])
    (hk : ((done ++ members).map (·.1)).Nodup)
    (h : ∀ m ∈ members, RunsThrough limit depth m.2) (hd : stack.length + (depth + 1) ≤ limit) :
    run limit (.key done, stack) (memberTokens members)
      = .ok (State.after (.object (done ++ members)) stack) := by
  induction members generalizing done with
  | nil => contradiction
  | cons m members ih =>
      obtain ⟨hvalue, hmembers⟩ := List.forall_mem_cons.mp h
      obtain ⟨key, value⟩ := m
      have hvalue := hvalue (.object done key :: stack) (by simp only [List.length_cons]; omega)
      have hnew : key ∉ done.map (·.1) := by
        rw [List.map_append, List.map_cons, List.nodup_append] at hk
        exact fun hmem => hk.2.2 _ hmem _ List.mem_cons_self rfl
      rw [State.after, setMember_of_notMem value hnew] at hvalue
      cases members with
      | nil => exact (run_cons rfl).trans ((run_cons rfl).trans (run_append hvalue))
      | cons next members =>
          rw [List.append_cons] at hk
          have hrest := ih (List.cons_ne_nil _ _) hk hmembers
          rw [List.append_assoc] at hrest
          exact (run_cons rfl).trans ((run_cons rfl).trans
            ((run_append hvalue).trans ((run_cons rfl).trans hrest)))

end

/-- **The lexemes of a value** are gone over. -/
theorem runsThrough_of_canonical {limit depth : Nat} {v : Json} (hv : Canonical depth v) :
    RunsThrough limit depth v := by
  induction hv with
  | null | boolean | number | string => exact fun _ _ => rfl
  | @array depth items _ ih =>
      intro stack hd
      have hopen : State.step limit (.value, stack) .arrayOpen = .ok (.firstItem, stack) :=
        if_pos (by omega)
      refine (run_cons hopen).trans ?_
      cases items with
      | nil => rfl
      | cons item items =>
          exact (run_firstItem item items).trans (run_itemTokens (List.cons_ne_nil _ _) ih hd)
  | @object depth members hk _ ih =>
      intro stack hd
      have hopen : State.step limit (.value, stack) .objectOpen = .ok (.firstKey, stack) :=
        if_pos (by omega)
      refine (run_cons hopen).trans ?_
      cases members with
      | nil => rfl
      | cons m members =>
          exact (run_firstKey m members).trans (run_memberTokens (List.cons_ne_nil _ _) hk ih hd)

/-- **The text of a value** is read as the value, where as many containers are allowed as it has
inside one another. -/
theorem ofSymbols_text {limit : Nat} {v : Json} (hv : Canonical limit v) :
    ofSymbols limit (symbols v.text.toList) = .ok v := by
  have hrun : run limit (.value, []) v.tokens = .ok (.done v, []) :=
    runsThrough_of_canonical hv [] (Nat.zero_add _).le
  unfold run at hrun
  rw [ofSymbols, scan_text hv, ofTokens, hrun]
  rfl

/-- **Bytes that write a value** are read as the value. -/
theorem ofBytes_toUTF8 {v : Json} (hv : Canonical nestingLimit v) :
    ofBytes v.text.toUTF8 = .ok v := by
  rw [ofBytes, Symbol.decode_toUTF8, ofSymbols_text hv]

/-- **Distinct values have distinct texts**, however deep they are. -/
theorem text_injective {limit : Nat} {v w : Json} (hv : Canonical limit v) (hw : Canonical limit w)
    (h : v.text = w.text) : v = w := by
  have hread := ofSymbols_text hv
  rw [h, ofSymbols_text hw] at hread
  exact (Except.ok.inj hread).symm

end GraphTrace.Json
