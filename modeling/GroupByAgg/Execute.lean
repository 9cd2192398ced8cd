import GroupByAgg.Plan

/-!
# Executing the stages: `_execute_map`, `_execute_combine`, `_execute_agg`

Every stage of a `DataFrameGroupByAgg` runs the steps of `agg_funcs` (`ReductionAggStep`). The map stage runs them
over the input chunk's data and emits one entry per step; the combine and agg stages read the tuple the stage
before emitted through `_pack_inputs`, which advances its offset by each step's `output_limit` and files what it
reads under the step's output key. A step with a custom implementation runs `custom_agg_functions[name]` through
`_do_custom_agg`; the map stage ends by recording sizes with the size recorder its operand names.

The data and the aggregation functions are abstract: `AggImpl` gives `_do_predefined_agg` by function name and the
registry `custom_agg_functions`.

* `_pack_inputs` files step `j` from the offset `output_limit_0 + … + output_limit_{j-1}` (`packInputs_eq`); when
  every `output_limit` is `1` that offset is `j`, so every step is handed exactly the entry emitted for it
  (`packInputs_limits_one`), and the combine stage runs every step on its own entry (`executeCombine_limits_one`);
* a custom step with `output_limit = 2` before a predefined step makes the combine and agg stages read past the end
  of the tuple the map stage emits (`pack_inputs_reads_past_tuple`);
* for a named aggregation `_do_custom_agg` resolves every custom step to the first named entry's function
  (`doCustomAgg_named`), so that with `x=('a', 'sum'), y=('b', 'nunique')` the step for `nunique` runs
  `custom_agg_functions['sum']` (`named_custom_step_runs_first_function`).
-/

namespace GroupByAgg

/-- What executing a stage raises: `get_remote_object` of a destroyed name, an `IndexError`, a `KeyError`. -/
inductive ExecError
  | remoteObjectNotFound (name : String)
  | indexError
  | keyError (key : String)
  deriving DecidableEq, Repr

/-! ## Python's containers -/

/-- `l[i]`. -/
def getItem {α : Type} (l : List α) (i : Nat) : Except ExecError α :=
  match l[i]? with
  | some a => .ok a
  | none => .error .indexError

/-- A dict with string keys, in insertion order. -/
abbrev PyDict (β : Type) := List (String × β)

/-- `d[k] = v`: the value of `k` is replaced in place, or appended. -/
def PyDict.set {β : Type} (d : PyDict β) (k : String) (v : β) : PyDict β :=
  if d.any (·.1 == k) then d.map fun p => if p.1 = k then (k, v) else p else d ++ [(k, v)]

/-- `d[k]`. -/
def PyDict.get {β : Type} (d : PyDict β) (k : String) : Except ExecError β :=
  match d.lookup k with
  | some v => .ok v
  | none => .error (.keyError k)

/-- Setting a new key appends it. -/
theorem PyDict.set_of_not_mem {β : Type} {d : PyDict β} {k : String} (h : k ∉ d.map (·.1)) (v : β) :
    d.set k v = d ++ [(k, v)] := by
  simp only [PyDict.set, List.any_eq_true, beq_iff_eq]
  rw [if_neg]
  rintro ⟨p, hp, rfl⟩
  exact h (List.mem_map_of_mem _ hp)

/-! ## Steps and operands -/

/-- A step of `agg_funcs` (`ReductionAggStep`), with the fields the executors read (`kwds` is left to
`_do_predefined_agg`). -/
structure ReductionAggStep where
  inputKey : String
  rawFuncName : String
  mapFuncName : String
  aggFuncName : String
  /-- `custom_reduction is not None`. -/
  customReduction : Bool
  outputKey : String
  outputLimit : Nat
  deriving DecidableEq, Repr

/-- `raw_func`, when it is not `None`: a function's name, or a list or dict of functions. -/
inductive RawFunc
  | name (f : String)
  | collection
  deriving DecidableEq, Repr

/-- A value of `raw_func_kw` in a named aggregation: `(column, function)` for a DataFrame, the function's name for a
Series. -/
inductive KwAgg
  | pair (col func : String)
  | name (func : String)
  deriving DecidableEq, Repr

/-- `func`: a list of functions, or a dict from columns to lists of functions. -/
inductive FuncSpec
  | list (funcs : List String)
  | dict (items : List (String × List String))
  deriving DecidableEq, Repr

/-- The fields of a `DataFrameGroupByAgg` operand that its execution reads. -/
structure AggOp where
  stage : Stage
  /-- `raw_func`; `none` for a named aggregation. -/
  rawFunc : Option RawFunc
  rawFuncKw : List (String × KwAgg)
  func : FuncSpec
  funcRename : Option (List String)
  aggFuncs : List ReductionAggStep
  sizeRecorderName : Option String

/-- The operand of a chunk plan that an executing operand is. -/
def AggOp.toOperand (op : AggOp) : Operand := .groupByAgg op.stage op.sizeRecorderName

/-- A value of `_pack_inputs`' dict, and what a custom implementation reads: one entry of a tuple, or a slice of
it. -/
inductive Packed (α : Type)
  | entry (a : α)
  | tuple (as : List α)

/-- The aggregation functions, as functions of the data: `_do_predefined_agg(input, func_name, single_func)`, and
the registry `custom_agg_functions`, whose entries run `execute_map`, `execute_combine` or `execute_agg` by
stage. -/
structure AggImpl (α : Type) where
  predefined : String → Bool → Packed α → α
  custom : String → Option (Stage → Packed α → α)

/-- A traversal that succeeds keeps the length. -/
theorem length_mapM_ok {β γ ε : Type} {f : β → Except ε γ} :
    ∀ {l : List β} {out : List γ}, l.mapM f = .ok out → out.length = l.length
  | [], out, h => by cases h; rfl
  | a :: l, out, h => by
    rw [List.mapM_cons] at h
    obtain ⟨b, -, h⟩ := Except.bind_eq_ok.mp h
    obtain ⟨bs, hbs, h⟩ := Except.bind_eq_ok.mp h
    cases h
    simp [length_mapM_ok hbs]

/-- Traversals agree when their functions agree on the list. -/
theorem mapM_congr_mem {β γ ε : Type} {f g : β → Except ε γ} :
    ∀ {l : List β}, (∀ x ∈ l, f x = g x) → l.mapM f = l.mapM g
  | [], _ => rfl
  | a :: l, h => by
    rw [List.mapM_cons, List.mapM_cons, h a (List.mem_cons_self _ _),
      mapM_congr_mem fun x hx => h x (List.mem_cons_of_mem _ hx)]

/-! ## `_pack_inputs` -/

section Pack

variable {α : Type} (inData : List α)

/-- What `_pack_inputs` files for `step` at the offset `pos`: `in_data[pos]`, or the slice
`in_data[pos : pos + output_limit]` for a custom step. -/
def packAt (pos : Nat) (step : ReductionAggStep) : Except ExecError (Packed α) :=
  if step.customReduction then .ok (.tuple ((inData.drop pos).take step.outputLimit))
  else .entry <$> getItem inData pos

/-- `_pack_inputs(agg_funcs, in_data)`. -/
def packInputs (aggFuncs : List ReductionAggStep) : Except ExecError (PyDict (Packed α)) :=
  go aggFuncs 0 []
where
  /-- The loop over the steps, at the offset `pos`, with the dict built so far. -/
  go : List ReductionAggStep → Nat → PyDict (Packed α) → Except ExecError (PyDict (Packed α))
    | [], _, outDict => .ok outDict
    | step :: rest, pos, outDict => do
      let v ← packAt inData pos step
      go rest (pos + step.outputLimit) (outDict.set step.outputKey v)

/-- The entries of the steps from the offset `pos` on, each under its output key. -/
def packFrom : List ReductionAggStep → Nat → Except ExecError (PyDict (Packed α))
  | [], _ => .ok []
  | step :: rest, pos => do
    let v ← packAt inData pos step
    let d ← packFrom rest (pos + step.outputLimit)
    pure ((step.outputKey, v) :: d)

theorem packInputs_go_eq : ∀ (steps : List ReductionAggStep) (pos : Nat) (outDict : PyDict (Packed α)),
    (steps.map (·.outputKey)).Nodup → (∀ s ∈ steps, s.outputKey ∉ outDict.map (·.1)) →
    packInputs.go inData steps pos outDict = (outDict ++ ·) <$> packFrom inData steps pos
  | [], _, outDict, _, _ => by simp [packInputs.go, packFrom]
  | step :: rest, pos, outDict, hnd, hnew => by
    rw [List.map_cons, List.nodup_cons] at hnd
    simp only [packInputs.go, packFrom, bind, Except.bind]
    cases packAt inData pos step with
    | error e => rfl
    | ok v =>
      dsimp only
      rw [PyDict.set_of_not_mem (hnew step (List.mem_cons_self _ _)),
        packInputs_go_eq rest _ _ hnd.2 fun s hs => ?_]
      · cases packFrom inData rest (pos + step.outputLimit) <;> simp [Functor.map, Except.map, pure, Except.pure]
      · rw [List.map_append, List.mem_append, not_or]
        refine ⟨hnew s (List.mem_cons_of_mem _ hs), fun h => hnd.1 ?_⟩
        have h' : s.outputKey = step.outputKey := by simpa using h
        exact h' ▸ List.mem_map_of_mem (·.outputKey) hs

/-- **`_pack_inputs` reads by offsets**: with distinct output keys, step `j` is filed from the offset
`output_limit_0 + … + output_limit_{j-1}`. -/
theorem packInputs_eq {aggFuncs : List ReductionAggStep} (hnd : (aggFuncs.map (·.outputKey)).Nodup) :
    packInputs inData aggFuncs = packFrom inData aggFuncs 0 := by
  rw [packInputs, packInputs_go_eq inData _ _ _ hnd (by simp)]
  cases packFrom inData aggFuncs 0 <;> rfl

/-- What step `j` of a tuple with one entry per step is handed when its offset is `j`: entry `j`, as a 1-tuple for a
custom step. -/
def packOwn (step : ReductionAggStep) (a : α) : Packed α := if step.customReduction then .tuple [a] else .entry a

theorem packFrom_limits_one : ∀ (steps : List ReductionAggStep) (pos : Nat), (∀ s ∈ steps, s.outputLimit = 1) →
    pos + steps.length = inData.length →
    packFrom inData steps pos = .ok ((steps.zip (inData.drop pos)).map fun (s, a) => (s.outputKey, packOwn s a))
  | [], _, _, _ => by simp [packFrom]
  | step :: rest, pos, h1, hlen => by
    have hpos : pos < inData.length := by simp at hlen; omega
    have hone := h1 step (List.mem_cons_self _ _)
    have hat : packAt inData pos step = .ok (packOwn step inData[pos]) := by
      unfold packAt packOwn
      split
      · rw [hone, List.drop_eq_getElem_cons hpos]; rfl
      · simp [getItem, List.getElem?_eq_getElem hpos, Functor.map, Except.map]
    rw [List.drop_eq_getElem_cons hpos]
    simp only [packFrom, hat, hone, bind, Except.bind,
      packFrom_limits_one rest (pos + 1) (fun s hs => h1 s (List.mem_cons_of_mem _ hs)) (by simp at hlen; omega)]
    rfl

/-- **When every `output_limit` is `1`, every step is handed its own entry**: over a tuple with one entry per
step and with distinct output keys, `_pack_inputs` files entry `j` (a 1-tuple for a custom step) under step `j`'s
output key. -/
theorem packInputs_limits_one {aggFuncs : List ReductionAggStep} (hnd : (aggFuncs.map (·.outputKey)).Nodup)
    (h1 : ∀ s ∈ aggFuncs, s.outputLimit = 1) (hlen : inData.length = aggFuncs.length) :
    packInputs inData aggFuncs = .ok ((aggFuncs.zip inData).map fun (s, a) => (s.outputKey, packOwn s a)) := by
  rw [packInputs_eq inData hnd, packFrom_limits_one inData aggFuncs 0 h1 (by omega), List.drop_zero]

end Pack

/-! ## `_do_custom_agg` and the size recording -/

section Custom

variable {α : Type} (impl : AggImpl α)

/-- `list(op.raw_func_kw.values())[0][1]`: the function of the first named entry, or the second character of a
Series' function name. -/
def firstKwFuncName : List (String × KwAgg) → Except ExecError String
  | [] => .error .indexError
  | (_, .pair _ f) :: _ => .ok f
  | (_, .name f) :: _ => String.singleton <$> getItem f.toList 1

/-- `custom_agg_functions[func_name].execute_map/execute_combine/execute_agg(op, in_data)`, by stage. -/
def runCustom (funcName : String) (stage : Stage) (inData : Packed α) : Except ExecError α :=
  match impl.custom funcName with
  | some f => .ok (f stage inData)
  | none => .error (.keyError funcName)

/-- `_do_custom_agg(func_name, op, in_data)`. -/
def doCustomAgg (funcName : String) (op : AggOp) (inData : Packed α) : Except ExecError α := do
  let funcName ← if op.rawFunc.isNone then firstKwFuncName op.rawFuncKw else pure funcName
  runCustom impl funcName op.stage inData

/-- **A named aggregation runs its first entry's function**: when `raw_func` is `None`, `_do_custom_agg` ignores
the name it is given and runs the custom implementation of the first named entry's function. -/
theorem doCustomAgg_named {op : AggOp} {k c f : String} {rest : List (String × KwAgg)} (h : op.rawFunc = none)
    (hkw : op.rawFuncKw = (k, .pair c f) :: rest) (funcName : String) (inData : Packed α) :
    doCustomAgg impl funcName op inData = runCustom impl f op.stage inData := by
  simp [doCustomAgg, h, hkw, firstKwFuncName, bind, Except.bind]

/-- Modelled from the spec: the context's registry of remote objects is not in the sources; `get_remote_object`
finds a name that is alive and fails on one that was destroyed. -/
def getRemoteObject (objs : List String) (name : String) : Except ExecError String :=
  if name ∈ objs then .ok name else .error (.remoteObjectNotFound name)

/-- The end of `_execute_map`: an operand that names a size recorder looks it up to record the sizes. -/
def recordSize (objs : List String) : Option String → Except ExecError Unit
  | some name => (fun _ => ()) <$> getRemoteObject objs name
  | none => .ok ()

end Custom

/-! ## The stages -/

section Stages

variable {α : Type} (impl : AggImpl α)

/-- A step of `_execute_map`: the custom implementation, or `_do_predefined_agg` with `single_func` when the step's
map function is `raw_func` (the selections of `pre_funcs` are left to `_do_predefined_agg`). -/
def mapStep (op : AggOp) (inData : α) (step : ReductionAggStep) : Except ExecError α :=
  if step.mapFuncName = "custom_reduction" then doCustomAgg impl step.rawFuncName op (.entry inData)
  else .ok (impl.predefined step.mapFuncName (op.rawFunc = some (.name step.mapFuncName)) (.entry inData))

/-- `_execute_map`: one entry per step, then the size recording. -/
def executeMap (objs : List String) (op : AggOp) (inData : α) : Except ExecError (List α) := do
  let aggDfs ← op.aggFuncs.mapM (mapStep impl op inData)
  recordSize objs op.sizeRecorderName
  pure aggDfs

/-- A step of `_execute_combine`: a custom step reads its raw input, a predefined one the packed dict. -/
def combineStep (op : AggOp) (inDataDict : PyDict (Packed α)) (rawInput : α) (step : ReductionAggStep) :
    Except ExecError α := do
  let inputObj ← inDataDict.get step.outputKey
  if step.aggFuncName = "custom_reduction" then doCustomAgg impl step.rawFuncName op (.entry rawInput)
  else pure (impl.predefined step.aggFuncName false inputObj)

/-- `_execute_combine`: the raw inputs zipped with the steps. -/
def executeCombine (op : AggOp) (inData : List α) : Except ExecError (List α) := do
  let inDataDict ← packInputs inData op.aggFuncs
  (inData.zip op.aggFuncs).mapM fun (rawInput, step) => combineStep impl op inDataDict rawInput step

/-- A step of `_execute_agg`: the step's entry of the dict is replaced by its result. -/
def aggStep (op : AggOp) (inDataDict : PyDict (Packed α)) (step : ReductionAggStep) :
    Except ExecError (PyDict (Packed α)) := do
  let v ← inDataDict.get step.outputKey
  let r ← if step.aggFuncName = "custom_reduction" then doCustomAgg impl step.rawFuncName op v
    else pure (impl.predefined step.aggFuncName false v)
  pure (inDataDict.set step.outputKey (.entry r))

/-- The steps of `_execute_agg`, before `post_funcs` and the columns. -/
def executeAggSteps (op : AggOp) (inData : List α) : Except ExecError (PyDict (Packed α)) := do
  let inDataDict ← packInputs inData op.aggFuncs
  List.foldlM (aggStep impl op) inDataDict op.aggFuncs

/-- The map stage fails whenever its operand names a size recorder that is gone. -/
theorem executeMap_recorder_gone {objs : List String} {op : AggOp} {name : String} (h : op.sizeRecorderName = some name)
    (hgone : name ∉ objs) (inData : α) (out : List α) : executeMap impl objs op inData ≠ .ok out := by
  simp only [executeMap, h, recordSize, getRemoteObject, hgone, if_false, bind, Except.bind]
  split <;> simp [Functor.map, Except.map]

/-- The map stage emits one entry per step. -/
theorem length_executeMap {objs : List String} {op : AggOp} {inData : α} {out : List α}
    (h : executeMap impl objs op inData = .ok out) : out.length = op.aggFuncs.length := by
  obtain ⟨aggDfs, hm, h⟩ := Except.bind_eq_ok.mp h
  obtain ⟨-, -, h⟩ := Except.bind_eq_ok.mp h
  cases h
  exact length_mapM_ok hm

/-- A combine step that reads its own entry: the custom implementation, or `_do_predefined_agg` over the entry. -/
def ownCombineStep (op : AggOp) (a : α) (step : ReductionAggStep) : Except ExecError α :=
  if step.aggFuncName = "custom_reduction" then doCustomAgg impl step.rawFuncName op (.entry a)
  else pure (impl.predefined step.aggFuncName false (packOwn step a))

theorem get_zip_packOwn : ∀ {steps : List ReductionAggStep} {as : List α} {step : ReductionAggStep} {a : α},
    (steps.map (·.outputKey)).Nodup → (a, step) ∈ as.zip steps →
    PyDict.get ((steps.zip as).map fun (s, a) => (s.outputKey, packOwn s a)) step.outputKey = .ok (packOwn step a)
  | [], _, _, _, _, h => by simp at h
  | _ :: _, [], _, _, _, h => by simp at h
  | s :: steps, b :: as, step, a, hnd, h => by
    rw [List.map_cons, List.nodup_cons] at hnd
    rw [List.zip_cons_cons, List.mem_cons] at h
    rcases h with h | h
    · obtain ⟨rfl, rfl⟩ := Prod.mk.inj h
      simp [PyDict.get]
    · have hne : step.outputKey ≠ s.outputKey := fun he =>
        hnd.1 (he ▸ List.mem_map_of_mem (·.outputKey) (List.of_mem_zip h).2)
      have hb : (step.outputKey == s.outputKey) = false := by simpa using hne
      simpa [PyDict.get, List.lookup_cons, hb] using get_zip_packOwn hnd.2 h

/-- **When every `output_limit` is `1`, the combine stage runs every step on its own entry**: over a tuple with one
entry per step and with distinct output keys, `_pack_inputs` files entry `j` (a 1-tuple for a custom step) under
step `j`'s output key, and result `j` of `_execute_combine` is step `j` run on entry `j`. -/
theorem executeCombine_limits_one {op : AggOp} {inData : List α} (hnd : (op.aggFuncs.map (·.outputKey)).Nodup)
    (h1 : ∀ s ∈ op.aggFuncs, s.outputLimit = 1) (hlen : inData.length = op.aggFuncs.length) :
    packInputs inData op.aggFuncs =
        .ok ((op.aggFuncs.zip inData).map fun (s, a) => (s.outputKey, packOwn s a)) ∧
      executeCombine impl op inData = (inData.zip op.aggFuncs).mapM fun (a, step) => ownCombineStep impl op a step := by
  refine ⟨packInputs_limits_one inData hnd h1 hlen, ?_⟩
  simp only [executeCombine, packInputs_limits_one inData hnd h1 hlen, bind, Except.bind]
  refine mapM_congr_mem fun ⟨a, step⟩ hmem => ?_
  simp only [combineStep, get_zip_packOwn hnd hmem, bind, Except.bind, ownCombineStep]

theorem executeCombine_limits_one_two_steps :
    ∃ (op : AggOp) (inData : List Nat), (op.aggFuncs.map (·.outputKey)).Nodup ∧
      (∀ s ∈ op.aggFuncs, s.outputLimit = 1) ∧ inData.length = op.aggFuncs.length ∧
      (packInputs inData op.aggFuncs =
          .ok ((op.aggFuncs.zip inData).map fun (s, a) => (s.outputKey, packOwn s a)) ∧
        executeCombine (⟨fun _ _ _ => 0, fun _ => none⟩ : AggImpl Nat) op inData =
          (inData.zip op.aggFuncs).mapM fun (a, step) => ownCombineStep ⟨fun _ _ _ => 0, fun _ => none⟩ op a step) :=
  ⟨⟨.combine, some .collection, [], .list ["sum", "nunique"], none,
      [⟨"a", "sum", "sum", "sum", false, "0", 1⟩, ⟨"a", "nunique", "custom_reduction", "custom_reduction", true, "1", 1⟩],
      none⟩,
    [1, 2], by decide, by decide, rfl, executeCombine_limits_one _ (by decide) (by decide) rfl⟩

/-- A custom step with `output_limit = 2` before a predefined step: the map stage emits one entry per step, and
`_pack_inputs` in the combine and agg stages reads index `2` of that 2-tuple. -/
theorem pack_inputs_reads_past_tuple {op : AggOp} {c s : ReductionAggStep} (hsteps : op.aggFuncs = [c, s])
    (hc : c.customReduction = true) (hl : c.outputLimit = 2) (hs : s.customReduction = false) (objs : List String)
    (inData m0 m1 : α) :
    (∀ out, executeMap impl objs op inData = .ok out → out.length = 2) ∧
      executeCombine impl op [m0, m1] = .error .indexError ∧ executeAggSteps impl op [m0, m1] = .error .indexError := by
  have hpack : packInputs [m0, m1] op.aggFuncs = .error .indexError := by
    simp [hsteps, packInputs, packInputs.go, packAt, hc, hl, hs, getItem, bind, Except.bind, Functor.map, Except.map]
  refine ⟨fun out h => by rw [length_executeMap impl h, hsteps]; rfl, ?_, ?_⟩
  · simp [executeCombine, hpack, bind, Except.bind]
  · simp [executeAggSteps, hpack, bind, Except.bind]

theorem pack_inputs_reads_past_tuple_nunique_then_sum :
    ∃ (op : AggOp) (c s : ReductionAggStep), op.aggFuncs = [c, s] ∧ c.customReduction = true ∧
      c.outputLimit = 2 ∧ s.customReduction = false ∧
      ((∀ out, executeMap (⟨fun _ _ _ => 0, fun _ => none⟩ : AggImpl Nat) [] op 0 = .ok out → out.length = 2) ∧
        executeCombine (⟨fun _ _ _ => 0, fun _ => none⟩ : AggImpl Nat) op [1, 2] = .error .indexError ∧
        executeAggSteps (⟨fun _ _ _ => 0, fun _ => none⟩ : AggImpl Nat) op [1, 2] = .error .indexError) :=
  ⟨⟨.combine, some .collection, [], .list ["nunique", "sum"], none,
      [⟨"a", "nunique", "custom_reduction", "custom_reduction", true, "0", 2⟩, ⟨"a", "sum", "sum", "sum", false, "1", 1⟩],
      none⟩,
    _, _, rfl, rfl, rfl, rfl, pack_inputs_reads_past_tuple _ rfl rfl rfl rfl [] 0 1 2⟩

end Stages

/-! ## `_compile_funcs` -/

/-- The names of `_agg_functions`, the functions a string may name. -/
def aggFunctionNames : List String :=
  ["sum", "prod", "product", "min", "max", "all", "any", "count", "size", "mean", "var", "std", "sem", "skew", "kurt",
    "kurtosis", "nunique"]

/-- `func_iter`: every function of `func` with its column, `None` for a list. -/
def FuncSpec.funcIter : FuncSpec → List (Option String × String)
  | .list funcs => funcs.map fun f => (none, f)
  | .dict items => items.flatMap fun (col, funcs) => funcs.map fun f => (some col, f)

/-- Modelled from the spec: the reduction compiler is not in the sources. `compiler.add_function(f, cols=cols,
func_name=func_name)`, as the `idx`-th function, adds one step whose raw name is `func_name`, a custom reduction
when `f` has a custom implementation, emitting one entry. -/
def addFunction (isCustom : String → Bool) (idx : Nat) (f : String) (cols : Option String) (funcName : String) :
    ReductionAggStep :=
  let fn := if isCustom f then "custom_reduction" else f
  ⟨cols.getD "", funcName, fn, fn, isCustom f, toString idx, 1⟩

/-- `_compile_funcs`: a step for every function of `func` zipped with `func_rename`; a string must name a function
of `_agg_functions`, and `func_rename` replaces the name the step is given. -/
def compileFuncs (isCustom : String → Bool) (op : AggOp) : Except ExecError (List ReductionAggStep) :=
  let funcRenames : List (Option String) := match op.funcRename with
    | some renames => renames.map some
    | none => op.func.funcIter.map fun _ => none
  (funcRenames.zip op.func.funcIter).enum.mapM fun (idx, rename, col, f) =>
    if f ∈ aggFunctionNames then .ok (addFunction isCustom idx f col (rename.getD f)) else .error (.keyError f)

/-- The request `agg(x=('a', 'sum'), y=('b', 'nunique'))` on a DataFrame groupby, at a stage, with its steps. -/
theorem named_custom_step_runs_first_function {α : Type} (impl : AggImpl α) (g : Stage → Packed α → α)
    (hg : impl.custom "nunique" = some g) (hsum : impl.custom "sum" = none) :
    ∃ steps, compileFuncs (fun f => (impl.custom f).isSome)
        ⟨.map, none, [("x", .pair "a" "sum"), ("y", .pair "b" "nunique")], .dict [("a", ["sum"]), ("b", ["nunique"])],
          some ["x", "y"], [], none⟩ = .ok steps ∧
      ∃ step ∈ steps, step.customReduction = true ∧ step.inputKey = "b" ∧ step.rawFuncName = "y" ∧
        (∀ (objs : List String) (inData : α), executeMap impl objs
          ⟨.map, none, [("x", .pair "a" "sum"), ("y", .pair "b" "nunique")],
            .dict [("a", ["sum"]), ("b", ["nunique"])], some ["x", "y"], steps, none⟩ inData =
          .error (.keyError "sum")) ∧
        ∀ (stage : Stage) (inData : Packed α),
          doCustomAgg impl step.rawFuncName ⟨stage, none, [("x", .pair "a" "sum"), ("y", .pair "b" "nunique")],
            .dict [("a", ["sum"]), ("b", ["nunique"])], some ["x", "y"], steps, none⟩ inData =
            .error (.keyError "sum") ∧
          runCustom impl "nunique" stage inData = .ok (g stage inData) := by
  have hsum' : (impl.custom "sum").isSome = false := by simp [hsum]
  have hnu : (impl.custom "nunique").isSome = true := by simp [hg]
  refine ⟨[addFunction (fun f => (impl.custom f).isSome) 0 "sum" (some "a") "x",
    addFunction (fun f => (impl.custom f).isSome) 1 "nunique" (some "b") "y"], rfl, _,
    List.mem_cons_of_mem _ (List.mem_singleton_self _), by simp [addFunction, hnu], rfl, rfl, fun objs inData => ?_,
    fun stage inData => ⟨?_, by simp [runCustom, hg]⟩⟩
  · simp [executeMap, List.mapM, List.mapM.loop, mapStep, addFunction, hsum', hnu, doCustomAgg, firstKwFuncName,
      runCustom, hsum, bind, Except.bind, pure, Except.pure]
  · rw [doCustomAgg_named impl rfl rfl]
    simp [runCustom, hsum]

theorem named_custom_step_runs_first_function_nat :
    ∃ (impl : AggImpl Nat) (g : Stage → Packed Nat → Nat), impl.custom "nunique" = some g ∧ impl.custom "sum" = none ∧
      ∃ steps, compileFuncs (fun f => (impl.custom f).isSome)
          ⟨.map, none, [("x", .pair "a" "sum"), ("y", .pair "b" "nunique")],
            .dict [("a", ["sum"]), ("b", ["nunique"])], some ["x", "y"], [], none⟩ = .ok steps ∧
        ∃ step ∈ steps, step.customReduction = true ∧ step.inputKey = "b" ∧ step.rawFuncName = "y" ∧
          (∀ (objs : List String) (inData : Nat), executeMap impl objs
            ⟨.map, none, [("x", .pair "a" "sum"), ("y", .pair "b" "nunique")],
              .dict [("a", ["sum"]), ("b", ["nunique"])], some ["x", "y"], steps, none⟩ inData =
            .error (.keyError "sum")) ∧
          ∀ (stage : Stage) (inData : Packed Nat),
            doCustomAgg impl step.rawFuncName ⟨stage, none, [("x", .pair "a" "sum"), ("y", .pair "b" "nunique")],
              .dict [("a", ["sum"]), ("b", ["nunique"])], some ["x", "y"], steps, none⟩ inData =
              .error (.keyError "sum") ∧
            runCustom impl "nunique" stage inData = .ok (g stage inData) :=
  ⟨⟨fun _ _ _ => 0, fun f => if f = "nunique" then some fun _ _ => 7 else none⟩, fun _ _ => 7, rfl, rfl,
    named_custom_step_runs_first_function _ _ rfl rfl⟩

end GroupByAgg
