import AccessControl.Proofs.Memory
import AccessControl.Proofs.Recency.Index

/-!
# Templates are compiled once while they are remembered

Whatever was compiled before, and however little room there is, a template comes to what it comes to
anew (`TemplateMemo.compile_transparent`).  A memo that served some calls (`TemplateMemo.Served`) still
remembers each pattern under its own template and tags, and its index is in step.  So a call is a miss
exactly if the template is compiled for it, and the second lookup, which is made before a pattern is kept,
finds nothing that the first one missed (`TemplateMemo.learn_of_new`).

To tell which templates are compiled, `TemplateMemo.noted` is a compiler that notes them.
-/

namespace AccessControl.TemplateMemo

variable {memo memo' memo'' : TemplateMemo} {key : TemplateKey} {calls calls' new new' : List TemplateKey}

section Runs

variable {m : Type → Type} [Monad m]

/-- Calls of a memo, one after the other. -/
def compileEach (make : TemplateKey → m (Except TemplateError CompiledTemplate)) :
    List TemplateKey → TemplateMemo → m (List (Except TemplateError CompiledTemplate) × TemplateMemo)
  | [], memo => return ([], memo)
  | key :: rest, memo => do
    let (result, memo) ← compileBy make memo key
    let (results, memo) ← compileEach make rest memo
    return (result :: results, memo)

end Runs

/-- Calls of a memo, one after the other, each compiling anew what is not remembered. -/
def outcomes (calls : List TemplateKey) (memo : TemplateMemo) :
    List (Except TemplateError CompiledTemplate) × TemplateMemo :=
  Id.run (compileEach (fun key => return key.compile) calls memo)

/-- A compiler that notes what it compiles. -/
def noted (key : TemplateKey) : StateM (List TemplateKey) (Except TemplateError CompiledTemplate) := do
  modify (· ++ [key])
  return key.compile

/-- **What calls leave of a memo**, when these templates were compiled anew: it is right and in step, it
has the same room, every call was a lookup, and the misses were the calls that compiled. -/
structure Served (calls new : List TemplateKey) (memo memo' : TemplateMemo) : Prop where
  sound : memo'.Sound
  inStep : memo'.InStep []
  sublist : new.Sublist calls
  capacity : memo'.capacity = memo.capacity
  lookups : memo'.hits + memo'.misses = memo.hits + memo.misses + calls.length
  misses : memo'.misses = memo.misses + new.length

theorem Served.trans (h : Served calls new memo memo') (h' : Served calls' new' memo' memo'') :
    Served (calls ++ calls') (new ++ new') memo memo'' where
  sound := h'.sound
  inStep := h'.inStep
  sublist := h.sublist.append h'.sublist
  capacity := h'.capacity.trans h.capacity
  lookups := by
    rw [h'.lookups, h.lookups, List.length_append]
    omega
  misses := by
    rw [h'.misses, h.misses, List.length_append]
    omega

/-! ## One call -/

/-- The second lookup finds nothing that the first one missed. -/
theorem learn_of_new (hnew : memo.contains key = false) (made : Except TemplateError CompiledTemplate) :
    learn memo key made =
      match made with
      | .ok t => (.ok t, memo.put key t)
      | .error e => (.error e, memo) := by
  cases made with
  | error e => rfl
  | ok t =>
    rw [learn, keep, hnew]
    rfl

/-- What is learned after a miss stays in step, and is no lookup. -/
theorem learn_apart (h : memo.InStep []) (hnew : memo.contains key = false)
    (made : Except TemplateError CompiledTemplate) :
    Lru.InStep [] (learn memo key made).2 ∧ (learn memo key made).2.capacity = memo.capacity ∧
      (learn memo key made).2.hits = memo.hits ∧ (learn memo key made).2.misses = memo.misses := by
  rw [learn_of_new hnew]
  cases made with
  | error e => exact ⟨h, rfl, rfl, rfl⟩
  | ok t =>
    obtain ⟨hcapacity, hhits, hmisses⟩ := Lru.counters_put h key t
    exact ⟨h.put_same key t, hcapacity, hhits, hmisses⟩

/-- **A call compiles anew what is not remembered**, and nothing else. -/
theorem compileBy_noted (hsound : memo.Sound) (h : memo.InStep []) (key : TemplateKey)
    (done : List TemplateKey) :
    ∃ new, Served [key] new memo (memo.compile key.template key.start key.stop).2 ∧
      compileBy noted memo key done =
        (memo.compile key.template key.start key.stop, done ++ new) := by
  have hkept := (compile_eq hsound key.template key.start key.stop).2
  have hstep := h.get? key
  cases he : memo.entries.find? fun e => e.1 == key with
  | some e =>
    have hget := Lru.get?_of_found h he
    have hcompile : memo.compile key.template key.start key.stop = (.ok e.2, (memo.get? key).2) := by
      rw [compile, compileBy, hget]
      rfl
    rw [hcompile] at hkept ⊢
    refine ⟨[], ⟨hkept, hstep, List.nil_sublist _, ?_, ?_, ?_⟩, ?_⟩
    · rw [hget]
    · rw [hget]
      show memo.hits + 1 + memo.misses = memo.hits + memo.misses + 1
      omega
    · rw [hget]
      rfl
    · rw [compileBy, hget, List.append_nil]
      rfl
  | none =>
    have hget := Lru.get?_of_new h he
    have hcompile : memo.compile key.template key.start key.stop =
        learn (memo.get? key).2 key key.compile := by
      rw [compile, compileBy, hget]
      rfl
    have hnew : Lru.contains (memo.get? key).2 key = false := by
      rw [hget, Bool.eq_false_iff]
      intro hknown
      obtain ⟨e, hmem, hkey⟩ := (Lru.contains_iff h).mp hknown
      exact List.find?_eq_none.mp he e hmem hkey
    obtain ⟨hinStep, hcapacity, hhits, hmisses⟩ := learn_apart hstep hnew key.compile
    rw [hcompile] at hkept ⊢
    refine ⟨[key], ⟨hkept, hinStep, .refl _, ?_, ?_, ?_⟩, ?_⟩
    · rw [hcapacity, hget]
    · rw [hhits, hmisses, hget]
      rfl
    · rw [hmisses, hget]
      rfl
    · rw [compileBy, hget]
      rfl

/-! ## All calls -/

theorem outcomes_cons (key : TemplateKey) (calls : List TemplateKey) (memo : TemplateMemo) :
    outcomes (key :: calls) memo =
      let first := memo.compile key.template key.start key.stop
      let rest := outcomes calls first.2
      (first.1 :: rest.1, rest.2) := rfl

/-- Calls come to what they come to anew. -/
theorem outcomes_fst (hsound : memo.Sound) (calls : List TemplateKey) :
    (outcomes calls memo).1 = calls.map TemplateKey.compile := by
  induction calls generalizing memo with
  | nil => rfl
  | cons key calls ih =>
    obtain ⟨hresult, hkept⟩ := compile_eq hsound key.template key.start key.stop
    rw [outcomes_cons, List.map_cons]
    exact congrArg₂ List.cons hresult (ih hkept)

/-- Calls compile anew what is not remembered when they are made. -/
theorem compileEach_noted (hsound : memo.Sound) (h : memo.InStep []) (calls done : List TemplateKey) :
    ∃ new, Served calls new memo (outcomes calls memo).2 ∧
      compileEach noted calls memo done = (outcomes calls memo, done ++ new) := by
  induction calls generalizing memo done with
  | nil =>
    refine ⟨[], ⟨hsound, h, .refl _, rfl, rfl, rfl⟩, ?_⟩
    rw [List.append_nil]
    rfl
  | cons key calls ih =>
    obtain ⟨new, hfirst, hnoted⟩ := compileBy_noted hsound h key done
    obtain ⟨new', hrest, hnoteds⟩ := ih hfirst.sound hfirst.inStep (done ++ new)
    have hcons : compileEach noted (key :: calls) memo done =
        let first := compileBy noted memo key done
        let rest := compileEach noted calls first.1.2 first.2
        ((first.1.1 :: rest.1.1, rest.1.2), rest.2) := rfl
    refine ⟨new ++ new', hfirst.trans hrest, ?_⟩
    rw [hcons, hnoted]
    simp only
    rw [hnoteds, List.append_assoc]
    rfl

/-- An entry is found under its own key, and is the pattern of its template. -/
theorem compile_of_entry? (hsound : memo.Sound) {e : TemplateKey × CompiledTemplate}
    (he : memo.entry? key = some e) : e.1 = key ∧ key.compile = .ok e.2 := by
  obtain ⟨hmem, hkey⟩ := Lru.mem_of_entry? he
  obtain rfl := eq_of_beq hkey
  exact ⟨rfl, hsound e hmem⟩

/-- What cannot be compiled is not remembered. -/
theorem contains_of_error (hsound : memo.Sound) (h : memo.InStep []) {error : TemplateError}
    (herror : key.compile = .error error) : memo.contains key = false := by
  rw [Bool.eq_false_iff]
  intro hknown
  obtain ⟨e, hmem, hkey⟩ := (Lru.contains_iff h).mp hknown
  obtain rfl := eq_of_beq hkey
  cases herror.symm.trans (hsound e hmem)

/-- **Compiling with a memo is compiling anew**, for every capacity and every sequence of calls.

Each call comes to what its template and tags come to.  What the calls leave remembers a pattern under
nothing but its own template and tags, so that other tags do not share it, and remembers nothing that
cannot be compiled; it stays within its capacity.  Each call is a hit or a miss, and the misses are the
calls that compiled anew. -/
theorem compile_transparent (capacity : Nat) (calls : List TemplateKey) :
    ∃ memo new,
      outcomes calls (Lru.ofCapacity capacity) = (calls.map TemplateKey.compile, memo) ∧
      (∀ key e, memo.entry? key = some e → e.1 = key ∧ key.compile = .ok e.2) ∧
      (∀ template start stop start' stop' e, memo.entry? ⟨template, start, stop⟩ = some e →
        memo.entry? ⟨template, start', stop'⟩ = some e → start = start' ∧ stop = stop') ∧
      (∀ key error, key.compile = .error error → memo.contains key = false) ∧
      memo.size ≤ max capacity 1 ∧
      memo.hits + memo.misses = calls.length ∧
      compileEach noted calls (Lru.ofCapacity capacity) [] =
        ((calls.map TemplateKey.compile, memo), new) ∧
      new.Sublist calls ∧ memo.misses = new.length := by
  have hsound : Sound (Lru.ofCapacity capacity) := Lru.holds_ofCapacity capacity
  obtain ⟨new, hserved, hnoted⟩ := compileEach_noted hsound (Lru.inStep_ofCapacity capacity) calls []
  have houtcomes : outcomes calls (Lru.ofCapacity capacity) = (calls.map TemplateKey.compile, _) :=
    Prod.ext (outcomes_fst hsound calls) rfl
  rw [houtcomes] at hserved hnoted
  have hentry {key e} (he : Lru.entry? (outcomes calls (Lru.ofCapacity capacity)).2 key = some e) :=
    compile_of_entry? hserved.sound he
  refine ⟨_, new, houtcomes, fun key e => hentry, ?_, ?_, ?_, ?_, hnoted, hserved.sublist, ?_⟩
  · intro template start stop start' stop' e he he'
    have hkeys := (hentry he).1.symm.trans (hentry he').1
    exact ⟨congrArg TemplateKey.start hkeys, congrArg TemplateKey.stop hkeys⟩
  · exact fun key error => contains_of_error hserved.sound hserved.inStep
  · rw [Lru.size_eq_length hserved.inStep]
    exact Nat.le_trans hserved.inStep.room (Nat.le_of_eq hserved.capacity)
  · exact hserved.lookups.trans (Nat.zero_add _)
  · exact hserved.misses.trans (Nat.zero_add _)

end AccessControl.TemplateMemo
