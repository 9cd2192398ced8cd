import GroupByAgg.Correct
import GroupByAgg.Execute
import GroupByAgg.Columns
import Mathlib.Algebra.BigOperators.Pi

/-!
# Running a plan

The runtime runs every chunk of a plan with its operand's `execute` on what its input chunks hold (`Chunk.run`):
an input chunk holds a frame; a `DataFrameGroupByAgg` chunk runs `_execute_map`, `_execute_combine` or the steps of
`_execute_agg` with the operand's `agg_funcs` at its own stage and size recorder; `DataFrameConcat` concatenates the
tuples it reads position by position; a shuffle map operand splits its tuple into one tuple per reducer, the proxy
gathers them, and the reducer of bucket `b` concatenates part `b` of every map operand. The concatenation, the
shuffle's split and the aggregation functions are the runtime's (`Runner`).

What the reduction compiler guarantees (spec §6) is a `Decomposition`: each stage runs step `s` as a function, entry
`j` of a tuple stands for a partial aggregate of step `j` (`mean j`), concatenating frames sums what they stand for,
combining and finalizing keep it, and the shuffle splits a tuple the way a `Splitter` splits what it stands for.

* With distinct output keys and every `output_limit` equal to `1`, the stages succeed and keep one entry per step
  (`executeMap_ok`, `executeCombine_ok`, `executeAggSteps_ok`).
* **The run simulates the plan's meaning** (`run_agrees`): every chunk built the way tilings build them (`Shaped`)
  runs, and what it holds stands for its value under `Chunk.eval`, input chunk `i` standing for what the map stage
  makes of it. Every tiling builds its output chunks that way (`shaped_tile`).
* **Running a tiling computes the whole** (`run_tile_aggregates_whole`): every output chunk of every tiling with
  `combine_size ≥ 0` runs to the agg stage's results on a tuple, and these tuples together stand for the input
  chunks; when the tiling has one output chunk it holds the agg stage's results on the map stage's results on all
  the data at once
  (`run_single_output_eq_whole`); output chunk `b` of a shuffle stands for part `b` of every input chunk
  (`run_shuffle_output_bucket`).
-/

namespace GroupByAgg

/-! ## Python's dict, updated in place -/

namespace PyDict

variable {β : Type} {d₁ d₂ : PyDict β} {k : String} {v : β}

/-- `d[k]` of a key filed once, after entries of other keys. -/
theorem get_append_cons (h : k ∉ d₁.map (·.1)) : PyDict.get (d₁ ++ (k, v) :: d₂) k = .ok v := by
  have hnone : d₁.lookup k = none := by
    induction d₁ with
    | nil => rfl
    | cons p d₁ ih =>
      have hp : (k == p.1) = false := by
        simpa using fun e => h (List.mem_map.mpr ⟨p, List.mem_cons_self _ _, e.symm⟩)
      rw [List.lookup_cons, hp]
      exact ih fun hk => h (List.mem_cons_of_mem _ hk)
  simp [PyDict.get, List.lookup_append, hnone, List.lookup_cons]

/-- `d[k] = w` of a key filed once replaces its entry in place. -/
theorem set_append_cons (h₁ : k ∉ d₁.map (·.1)) (h₂ : k ∉ d₂.map (·.1)) (w : β) :
    (d₁ ++ (k, v) :: d₂).set k w = d₁ ++ (k, w) :: d₂ := by
  have hkeep : ∀ {d : PyDict β}, k ∉ d.map (·.1) → (d.map fun p => if p.1 = k then (k, w) else p) = d :=
    fun hd => (List.map_congr_left fun p hp => if_neg fun e => hd (List.mem_map.mpr ⟨p, hp, e⟩)).trans
      (List.map_id _)
  simp only [PyDict.set, List.any_append, List.any_cons, beq_self_eq_true, Bool.true_or, Bool.or_true, if_true,
    List.map_append, List.map_cons, hkeep h₁, hkeep h₂]

end PyDict

/-! ## Stages with one entry per step -/

section Stages

variable {α : Type} (impl : AggImpl α)

/-- The operand of a chunk: the tileable's operand at a stage, with a size recorder. -/
def AggOp.at (op : AggOp) (stage : Stage) (sizeRecorderName : Option String) : AggOp :=
  { op with stage := stage, sizeRecorderName := sizeRecorderName }

@[simp] theorem AggOp.aggFuncs_at (op : AggOp) (stage : Stage) (r : Option String) :
    (op.at stage r).aggFuncs = op.aggFuncs := rfl

@[simp] theorem AggOp.sizeRecorderName_at (op : AggOp) (stage : Stage) (r : Option String) :
    (op.at stage r).sizeRecorderName = r := rfl

/-- A step of `_execute_agg` on the entry filed for it, when every `output_limit` is `1`. -/
def aggOwnStep (op : AggOp) (a : α) (step : ReductionAggStep) : Except ExecError α :=
  if step.aggFuncName = "custom_reduction" then doCustomAgg impl step.rawFuncName op (packOwn step a)
  else pure (impl.predefined step.aggFuncName false (packOwn step a))

variable {op : AggOp}

/-- The map stage succeeds when every step does and its size recorder, if any, is alive. -/
theorem executeMap_ok {objs : List String} {x : α} {f : ReductionAggStep → α}
    (hf : ∀ s ∈ op.aggFuncs, mapStep impl op x s = .ok (f s))
    (hrec : ∀ name, op.sizeRecorderName = some name → name ∈ objs) :
    executeMap impl objs op x = .ok (op.aggFuncs.map f) := by
  have hr : recordSize objs op.sizeRecorderName = .ok () := by
    cases h : op.sizeRecorderName with
    | none => rfl
    | some name => simp [recordSize, getRemoteObject, hrec name h, Functor.map, Except.map]
  simp only [executeMap, mapM_eq_ok hf, hr, bind, Except.bind, pure, Except.pure]

/-- The combine stage runs step `j` on entry `j`. -/
theorem executeCombine_ok {t : List α} {f : ReductionAggStep → α → α}
    (hnd : (op.aggFuncs.map (·.outputKey)).Nodup) (h1 : ∀ s ∈ op.aggFuncs, s.outputLimit = 1)
    (hlen : t.length = op.aggFuncs.length)
    (hf : ∀ s ∈ op.aggFuncs, ∀ a, ownCombineStep impl op a s = .ok (f s a)) :
    executeCombine impl op t = .ok (List.zipWith (fun a s => f s a) t op.aggFuncs) := by
  rw [← List.map_uncurry_zip_eq_zipWith]
  simp only [executeCombine, packInputs_limits_one t hnd h1 hlen, bind, Except.bind]
  refine mapM_eq_ok fun ⟨a, s⟩ hmem => ?_
  simpa only [combineStep, get_zip_packOwn hnd hmem, bind, Except.bind, ownCombineStep] using
    hf s (List.of_mem_zip hmem).2 a

/-- A step of `_execute_agg` that finds its own entry replaces it by its result. -/
theorem aggStep_of_own {D : PyDict (Packed α)} {s : ReductionAggStep} {a r : α}
    (hget : D.get s.outputKey = .ok (packOwn s a)) (hown : aggOwnStep impl op a s = .ok r) :
    aggStep impl op D s = .ok (D.set s.outputKey (.entry r)) := by
  simp only [aggOwnStep] at hown
  simp only [aggStep, hget, bind, Except.bind]
  split_ifs at hown ⊢
  · simp [hown, pure, Except.pure]
  · cases hown; rfl

/-- `_execute_agg`'s loop, over entries filed under distinct keys: each step replaces its own entry by its result. -/
theorem foldlM_aggStep {f : ReductionAggStep → α → α}
    (hf : ∀ s ∈ op.aggFuncs, ∀ a, aggOwnStep impl op a s = .ok (f s a)) :
    ∀ (done : PyDict (Packed α)) (todo : List (ReductionAggStep × α)), (∀ p ∈ todo, p.1 ∈ op.aggFuncs) →
      (done.map (·.1) ++ todo.map (·.1.outputKey)).Nodup →
      (todo.map Prod.fst).foldlM (aggStep impl op) (done ++ todo.map fun (s, a) => (s.outputKey, packOwn s a)) =
        .ok (done ++ todo.map fun (s, a) => (s.outputKey, .entry (f s a)))
  | done, [], _, _ => by simp [pure, Except.pure]
  | done, (s, a) :: todo, hmem, hnd => by
    have hnd' := hnd
    rw [List.map_cons, List.nodup_append, List.nodup_cons] at hnd'
    obtain ⟨-, ⟨hrest, -⟩, hdisj⟩ := hnd'
    have hdone : s.outputKey ∉ done.map (·.1) := fun h => hdisj h (List.mem_cons_self _ _)
    have htodo : s.outputKey ∉ (todo.map fun (s, a) => (s.outputKey, packOwn s a)).map (·.1) := by
      rw [List.map_map]; exact hrest
    have hstep : aggStep impl op (done ++ (s.outputKey, packOwn s a) :: todo.map fun (s, a) =>
        (s.outputKey, packOwn s a)) s = _ :=
      aggStep_of_own impl (PyDict.get_append_cons hdone) (hf s (hmem _ (List.mem_cons_self _ _)) a)
    rw [PyDict.set_append_cons hdone htodo, List.append_cons done (s.outputKey, Packed.entry (f s a))] at hstep
    simp only [List.map_cons, List.foldlM_cons, hstep, bind, Except.bind]
    rw [foldlM_aggStep hf _ todo (fun p hp => hmem p (List.mem_cons_of_mem _ hp)) (by simpa using hnd)]
    simp

/-- The agg stage's steps replace every step's entry by the step's result on it. -/
theorem executeAggSteps_ok {t : List α} {f : ReductionAggStep → α → α}
    (hnd : (op.aggFuncs.map (·.outputKey)).Nodup) (h1 : ∀ s ∈ op.aggFuncs, s.outputLimit = 1)
    (hlen : t.length = op.aggFuncs.length) (hf : ∀ s ∈ op.aggFuncs, ∀ a, aggOwnStep impl op a s = .ok (f s a)) :
    executeAggSteps impl op t = .ok ((op.aggFuncs.zip t).map fun (s, a) => (s.outputKey, .entry (f s a))) := by
  have hfst : (op.aggFuncs.zip t).map Prod.fst = op.aggFuncs := List.map_fst_zip _ _ (by omega)
  have hkeys : (op.aggFuncs.zip t).map (·.1.outputKey) = op.aggFuncs.map (·.outputKey) := by
    conv_rhs => rw [← hfst]
    rw [List.map_map]; rfl
  have hfold := foldlM_aggStep impl hf [] (op.aggFuncs.zip t) (fun p hp => hfst ▸ List.mem_map_of_mem _ hp)
    (by rwa [List.map_nil, List.nil_append, hkeys])
  rw [hfst] at hfold
  simp only [executeAggSteps, packInputs_limits_one t hnd h1 hlen, bind, Except.bind]
  simpa using hfold

end Stages

/-! ## The run -/

section Run

variable {α : Type}

/-- What a chunk holds while a plan runs. -/
inductive Held (α : Type)
  /-- An input chunk's data. -/
  | frame (x : α)
  /-- What a map or combine stage, a concatenation or a reducer emits: an entry per step. -/
  | tuple (t : List α)
  /-- What a shuffle map operand emits: a tuple per reducer. -/
  | buckets (bs : List (List α))
  /-- What the proxy gathers: the buckets of every map operand. -/
  | exchange (bss : List (List (List α)))
  /-- What the agg stage's steps leave, before `post_funcs`. -/
  | dict (d : PyDict (Packed α))
  /-- Sampled keys, or the pivots. -/
  | keys

/-- The tuple a chunk holds. -/
def Held.toTuple : Held α → Option (List α)
  | .tuple t => some t
  | _ => none

/-- The buckets a chunk holds. -/
def Held.toBuckets : Held α → Option (List (List α))
  | .buckets bs => some bs
  | _ => none

/-- Whether a chunk holds keys. -/
def Held.isKeys : Held α → Bool
  | .keys => true
  | _ => false

/-- What stops a run: an error a stage raises, or an operand given inputs that no tiling gives it. -/
inductive RunError
  | exec (e : ExecError)
  | unexpectedInput

/-- What the runtime brings to a run: the aggregation functions, the concatenation of frames, and the split a shuffle
map operand applies to a tuple (by hash, or by the pivots of the sort shuffle; a plan has one kind). -/
structure Runner (α : Type) where
  impl : AggImpl α
  concat : List α → α
  split : List α → Nat → List (List α)

/-- Modelled from the spec: `DataFrameConcat` is not in the sources. Over inputs holding tuples it concatenates
position by position, position `i` of every input for every `i` below the first input's length. -/
def concatTuples (concat : List α → α) : List (List α) → Except ExecError (List α)
  | [] => .error .indexError
  | t :: ts => (List.range t.length).mapM fun i => concat <$> (t :: ts).mapM (getItem · i)

/-- Modelled from the spec: the shuffle operands are not in the sources. The reducer of bucket `b` reads part `b` of
every map operand's buckets and concatenates them. -/
def reduceBucket (concat : List α → α) (b : Nat) (bss : List (List (List α))) : Except ExecError (List α) := do
  let parts ← bss.mapM (getItem · b)
  concatTuples concat parts

/-- `execute` of a chunk's operand on what its inputs hold: a `DataFrameGroupByAgg` chunk runs its stage with the
tileable operand's steps and its own size recorder. -/
def Runner.operate (R : Runner α) (op : AggOp) (objs : List String) :
    Operand → List (Held α) → Except RunError (Held α)
  | .groupByAgg .map r, [.frame x] =>
    Except.mapError RunError.exec (Held.tuple <$> executeMap R.impl objs (op.at .map r) x)
  | .groupByAgg .combine r, [.tuple t] =>
    Except.mapError RunError.exec (Held.tuple <$> executeCombine R.impl (op.at .combine r) t)
  | .groupByAgg .agg r, [.tuple t] =>
    Except.mapError RunError.exec (Held.dict <$> executeAggSteps R.impl (op.at .agg r) t)
  | .concat, hs => match hs.mapM Held.toTuple with
    | some ts => Except.mapError RunError.exec (Held.tuple <$> concatTuples R.concat ts)
    | none => .error .unexpectedInput
  | .groupByMap n, [.tuple t] => .ok (.buckets (R.split t n))
  | .sortShuffleMap _ n, [.tuple t, .keys] => .ok (.buckets (R.split t n))
  | .shuffleProxy, hs => match hs.mapM Held.toBuckets with
    | some bss => .ok (.exchange bss)
    | none => .error .unexpectedInput
  | .groupByReduce b _, [.exchange bss] =>
    Except.mapError RunError.exec (Held.tuple <$> reduceBucket R.concat (b.headD 0) bss)
  | .sortShuffleReduce b _, [.exchange bss] =>
    Except.mapError RunError.exec (Held.tuple <$> reduceBucket R.concat (b.headD 0) bss)
  | .psrsSample _, [.tuple _] => .ok .keys
  | .concatPivot _, hs => if hs.all Held.isKeys then .ok .keys else .error .unexpectedInput
  | _, _ => .error .unexpectedInput

theorem Runner.operate_concat (R : Runner α) (op : AggOp) (objs : List String) (hs : List (Held α)) :
    R.operate op objs .concat hs = match hs.mapM Held.toTuple with
      | some ts => Except.mapError RunError.exec (Held.tuple <$> concatTuples R.concat ts)
      | none => .error .unexpectedInput := rfl

theorem Runner.operate_shuffleProxy (R : Runner α) (op : AggOp) (objs : List String) (hs : List (Held α)) :
    R.operate op objs .shuffleProxy hs = match hs.mapM Held.toBuckets with
      | some bss => .ok (.exchange bss)
      | none => .error .unexpectedInput := rfl

theorem Runner.operate_concatPivot (R : Runner α) (op : AggOp) (objs : List String) (n : Nat) (hs : List (Held α)) :
    R.operate op objs (.concatPivot n) hs = if hs.all Held.isKeys then .ok .keys else .error .unexpectedInput := rfl

/-- A stage that succeeds, read as what the chunk holds. -/
theorem mapError_map_ok {β γ : Type} {e : Except ExecError β} {a : β} {f : β → γ} (h : e = .ok a) :
    (f <$> e).mapError RunError.exec = .ok (f a) := by
  rw [h]; rfl

namespace Chunk

/-- The run of a chunk, input chunk `i` holding `xs i`. -/
def run (R : Runner α) (op : AggOp) (objs : List String) (xs : Nat → α) : Chunk → Except RunError (Held α)
  | .source i _ => .ok (.frame (xs i))
  | .node o _ ins => runAll ins >>= R.operate op objs o
where
  /-- The runs of a list of chunks. -/
  runAll : List Chunk → Except RunError (List (Held α))
    | [] => .ok []
    | c :: cs => do
      let h ← c.run R op objs xs
      let hs ← runAll cs
      pure (h :: hs)

variable (R : Runner α) (op : AggOp) (objs : List String) (xs : Nat → α)

theorem runAll_eq (cs : List Chunk) : run.runAll R op objs xs cs = cs.mapM (run R op objs xs) := by
  induction cs with
  | nil => rfl
  | cons c cs ih => simp only [run.runAll, ih, List.mapM_cons]

@[simp] theorem run_source (i : Nat) (idx : Index) : (source i idx).run R op objs xs = .ok (.frame (xs i)) := rfl

theorem run_node (o : Operand) (idx : Index) (ins : List Chunk) :
    (node o idx ins).run R op objs xs = ins.mapM (run R op objs xs) >>= R.operate op objs o := by
  rw [run, runAll_eq]

end Chunk

/-- A traversal that succeeds on every element, with what each result is read as. -/
theorem mapM_ok_map {β γ δ ζ ε : Type} {f : β → Except ε γ} {g : δ → γ} {F : δ → ζ} {G : β → ζ}
    {Q : δ → Prop} :
    ∀ {l : List β}, (∀ b ∈ l, ∃ d, f b = .ok (g d) ∧ F d = G b ∧ Q d) →
      ∃ ds : List δ, l.mapM f = .ok (ds.map g) ∧ ds.map F = l.map G ∧ ∀ d ∈ ds, Q d
  | [], _ => ⟨[], rfl, rfl, by simp⟩
  | b :: l, h => by
    obtain ⟨d, hb, hF, hQ⟩ := h b (List.mem_cons_self _ _)
    obtain ⟨ds, hl, hds, hQs⟩ := mapM_ok_map fun b' hb' => h b' (List.mem_cons_of_mem _ hb')
    refine ⟨d :: ds, ?_, by simp [hF, hds], by simpa [hQ] using hQs⟩
    rw [List.mapM_cons, hb, hl]
    rfl

/-- Reading position `i` of lists that all reach past it. -/
theorem mapM_getItem {β : Type} {i : Nat} : ∀ {ls : List (List β)}, (∀ l ∈ ls, i < l.length) →
    ls.mapM (getItem · i) = .ok (ls.filterMap (·[i]?))
  | [], _ => rfl
  | l :: ls, h => by
    have hi := h l (List.mem_cons_self _ _)
    rw [List.mapM_cons, mapM_getItem fun l' hl' => h l' (List.mem_cons_of_mem _ hl')]
    simp [getItem, List.getElem?_eq_getElem hi, bind, Except.bind, pure, Except.pure]

@[simp] theorem mapM_toTuple (ts : List (List α)) : (ts.map Held.tuple).mapM Held.toTuple = some ts := by
  induction ts with
  | nil => rfl
  | cons t ts ih => rw [List.map_cons, List.mapM_cons, ih]; rfl

@[simp] theorem mapM_toBuckets (bss : List (List (List α))) :
    (bss.map Held.buckets).mapM Held.toBuckets = some bss := by
  induction bss with
  | nil => rfl
  | cons bs bss ih => rw [List.map_cons, List.mapM_cons, ih]; rfl

end Run

/-! ## What a run stands for -/

section Meaning

variable {α N : Type} [AddCommMonoid N]

/-- What a tuple stands for: entry `j` read as a partial aggregate of step `j`, and `0` past its end. -/
def tupleMean (mean : Nat → α → N) (t : List α) : Nat → N := fun j => (t[j]?.map (mean j)).getD 0

theorem tupleMean_of_lt {mean : Nat → α → N} {t : List α} {j : Nat} (hj : j < t.length) :
    tupleMean mean t j = mean j t[j] := by
  simp [tupleMean, List.getElem?_eq_getElem hj]

theorem tupleMean_of_le {mean : Nat → α → N} {t : List α} {j : Nat} (hj : t.length ≤ j) :
    tupleMean mean t j = 0 := by
  simp [tupleMean, List.getElem?_eq_none hj]

/-- A stage that keeps what every entry stands for keeps what the tuple stands for. -/
theorem tupleMean_zipWith {mean : Nat → α → N} {steps : List ReductionAggStep} {f : ReductionAggStep → α → α}
    {t : List α} (hlen : t.length = steps.length)
    (hf : ∀ j (hj : j < steps.length) a, mean j (f steps[j] a) = mean j a) :
    tupleMean mean (List.zipWith (fun a s => f s a) t steps) = tupleMean mean t := by
  funext j
  by_cases hj : j < steps.length
  · rw [tupleMean_of_lt (by simp; omega), tupleMean_of_lt (by omega), List.getElem_zipWith, hf j hj]
  · rw [tupleMean_of_le (by simp; omega), tupleMean_of_le (by omega)]

/-- The column at position `i` of tuples that all reach past it stands for the sum at `i`. -/
theorem map_filterMap_getElem? {mean : Nat → α → N} {i : Nat} :
    ∀ {ts : List (List α)}, (∀ t ∈ ts, i < t.length) →
    (ts.filterMap (·[i]?)).map (mean i) = ts.map fun t => tupleMean mean t i
  | [], _ => rfl
  | t :: ts, h => by
    have hi := h t (List.mem_cons_self _ _)
    rw [List.filterMap_cons, List.getElem?_eq_getElem hi]
    simp [tupleMean_of_lt hi, map_filterMap_getElem? fun t' ht' => h t' (List.mem_cons_of_mem _ ht')]

/-- Concatenating tuples of one length position by position sums what they stand for. -/
theorem concatTuples_ok {mean : Nat → α → N} {concat : List α → α}
    (hconcat : ∀ j ps, mean j (concat ps) = (ps.map (mean j)).sum) {ts : List (List α)} {k : Nat} (hne : ts ≠ [])
    (hlen : ∀ t ∈ ts, t.length = k) :
    ∃ u, concatTuples concat ts = .ok u ∧ u.length = k ∧ tupleMean mean u = (ts.map (tupleMean mean)).sum := by
  obtain ⟨t, ts', rfl⟩ := List.exists_cons_of_ne_nil hne
  have hcol : ∀ i ∈ List.range k, (concat <$> (t :: ts').mapM (getItem · i)) =
      .ok (concat ((t :: ts').filterMap (·[i]?))) := fun i hi => by
    rw [mapM_getItem fun l hl => by rw [hlen l hl]; exact List.mem_range.mp hi]; rfl
  refine ⟨(List.range k).map fun i => concat ((t :: ts').filterMap (·[i]?)), ?_, by simp, ?_⟩
  · rw [concatTuples, hlen t (List.mem_cons_self _ _)]
    exact mapM_eq_ok hcol
  · funext j
    rw [Pi.list_sum_apply, List.map_map]
    by_cases hj : j < k
    · rw [tupleMean_of_lt (by simpa using hj)]
      simp only [List.getElem_map, List.getElem_range, hconcat,
        map_filterMap_getElem? fun l hl => (hlen l hl).symm ▸ hj]
      rfl
    · rw [tupleMean_of_le (by simp; omega)]
      exact (List.sum_eq_zero fun x hx => by
        obtain ⟨l, hl, rfl⟩ := List.mem_map.mp hx
        exact tupleMean_of_le (by rw [hlen l hl]; omega)).symm

/-- Part `b` of every map operand's buckets, read as tuples. -/
theorem map_filterMap_bucket {mean : Nat → α → N} {b : Nat} : ∀ {bss : List (List (List α))},
    (∀ bs ∈ bss, b < bs.length) →
      (bss.filterMap (·[b]?)).map (tupleMean mean) = bss.map fun bs => (bs.map (tupleMean mean)).getD b 0
  | [], _ => rfl
  | bs :: bss, h => by
    have hb := h bs (List.mem_cons_self _ _)
    rw [List.filterMap_cons, List.getElem?_eq_getElem hb]
    simp [List.getD_eq_getElem?_getD, List.getElem?_map, List.getElem?_eq_getElem hb,
      map_filterMap_bucket fun c hc => h c (List.mem_cons_of_mem _ hc)]

/-- The reducer of bucket `b`, over map operands whose `n` tuples have one length, stands for the sum of their parts
`b`. -/
theorem reduceBucket_ok {mean : Nat → α → N} {concat : List α → α}
    (hconcat : ∀ j ps, mean j (concat ps) = (ps.map (mean j)).sum) {bss : List (List (List α))} {b n k : Nat}
    (hb : b < n) (hne : bss ≠ []) (hlen : ∀ bs ∈ bss, bs.length = n ∧ ∀ t ∈ bs, t.length = k) :
    ∃ u, reduceBucket concat b bss = .ok u ∧ u.length = k ∧
      tupleMean mean u = ((bss.map (·.map (tupleMean mean))).map (·.getD b 0)).sum := by
  have hlt : ∀ bs ∈ bss, b < bs.length := fun bs hbs => (hlen bs hbs).1 ▸ hb
  have hne' : bss.filterMap (·[b]?) ≠ [] := by
    obtain ⟨bs, hbs⟩ := List.exists_mem_of_ne_nil _ hne
    exact List.ne_nil_of_mem (List.mem_filterMap.mpr ⟨bs, hbs, List.getElem?_eq_getElem (hlt bs hbs)⟩)
  obtain ⟨u, hu, hk, hmean⟩ := concatTuples_ok hconcat hne' fun t ht => by
    obtain ⟨bs, hbs, hbt⟩ := List.mem_filterMap.mp ht
    rw [List.getElem?_eq_getElem (hlt bs hbs)] at hbt
    cases hbt
    exact (hlen bs hbs).2 _ (List.getElem_mem _)
  refine ⟨u, ?_, hk, ?_⟩
  · rw [reduceBucket, mapM_getItem hlt]
    exact hu
  · rw [hmean, map_filterMap_bucket hlt, List.map_map]
    rfl

/-- What the reduction compiler and the local primitives guarantee (spec §6) for the steps of `op`: each stage runs
step `s` as a function (`mapOut`, `combineOut`, `aggOut`); reading entry `j` of a tuple as a partial aggregate of step
`j` (`mean j`), combining and finalizing keep what an entry stands for and concatenating frames sums it; and the
shuffle splits a tuple into tuples of its length that stand for what `sp` splits it into. -/
structure Decomposition (R : Runner α) (op : AggOp) (sp : Splitter (Nat → N)) where
  mean : Nat → α → N
  mapOut : ReductionAggStep → α → α
  combineOut : ReductionAggStep → α → α
  aggOut : ReductionAggStep → α → α
  mapStep_eq : ∀ s ∈ op.aggFuncs, ∀ r x, mapStep R.impl (op.at .map r) x s = .ok (mapOut s x)
  ownCombineStep_eq :
    ∀ s ∈ op.aggFuncs, ∀ r a, ownCombineStep R.impl (op.at .combine r) a s = .ok (combineOut s a)
  aggOwnStep_eq : ∀ s ∈ op.aggFuncs, ∀ r a, aggOwnStep R.impl (op.at .agg r) a s = .ok (aggOut s a)
  mean_concat : ∀ j ps, mean j (R.concat ps) = (ps.map (mean j)).sum
  mean_combineOut : ∀ j (hj : j < op.aggFuncs.length) a, mean j (combineOut op.aggFuncs[j] a) = mean j a
  mean_aggOut : ∀ j (hj : j < op.aggFuncs.length) a, mean j (aggOut op.aggFuncs[j] a) = mean j a
  length_split : ∀ t n, (R.split t n).length = n
  length_of_mem_split : ∀ t n, ∀ b ∈ R.split t n, b.length = t.length
  split_mean : ∀ t n, (R.split t n).map (tupleMean mean) = sp.split (tupleMean mean t) n

variable {R : Runner α} {op : AggOp} {sp : Splitter (Nat → N)} (D : Decomposition R op sp)

/-- What a frame stands for: what the map stage makes of it. -/
def Decomposition.rawMean (x : α) : Nat → N := tupleMean D.mean (op.aggFuncs.map fun s => D.mapOut s x)

/-- What a chunk of a plan holds: a frame, a tuple, `n` buckets, the buckets of a nonempty list of `n`-way map
operands, an agg dict, or keys. -/
inductive Kind
  | frame
  | tuple
  | buckets (n : Nat)
  | exchange (n : Nat)
  | dict
  | keys

/-- The chunks tilings build, by what they hold; a map-stage chunk that names a size recorder runs while it is
alive. -/
inductive Shaped (objs : List String) : Kind → Chunk → Prop
  | source (i : Nat) (idx : Index) : Shaped objs .frame (.source i idx)
  | map {r : Option String} {c : Chunk} (idx : Index) (hr : ∀ name, r = some name → name ∈ objs)
      (hc : Shaped objs .frame c) : Shaped objs .tuple (.node (.groupByAgg .map r) idx [c])
  | concat {ins : List Chunk} (idx : Index) (hne : ins ≠ []) (hins : ∀ c ∈ ins, Shaped objs .tuple c) :
      Shaped objs .tuple (.node .concat idx ins)
  | combine {r : Option String} {c : Chunk} (idx : Index) (hc : Shaped objs .tuple c) :
      Shaped objs .tuple (.node (.groupByAgg .combine r) idx [c])
  | agg {r : Option String} {c : Chunk} (idx : Index) (hc : Shaped objs .tuple c) :
      Shaped objs .dict (.node (.groupByAgg .agg r) idx [c])
  | hashMap {n : Nat} {c : Chunk} (idx : Index) (hc : Shaped objs .tuple c) :
      Shaped objs (.buckets n) (.node (.groupByMap n) idx [c])
  | sortMap {size n : Nat} {c p : Chunk} (idx : Index) (hc : Shaped objs .tuple c) (hp : Shaped objs .keys p) :
      Shaped objs (.buckets n) (.node (.sortShuffleMap size n) idx [c, p])
  | proxy {n : Nat} {ins : List Chunk} (idx : Index) (hne : ins ≠ [])
      (hins : ∀ c ∈ ins, Shaped objs (.buckets n) c) :
      Shaped objs (.exchange n) (.node .shuffleProxy idx ins)
  | reduce {o : Operand} {b : Index} {n m : Nat} {c : Chunk} (idx : Index)
      (hop : o = .groupByReduce b m ∨ o = .sortShuffleReduce b m) (hb : b.headD 0 < n)
      (hc : Shaped objs (.exchange n) c) :
      Shaped objs .tuple (.node o idx [c])
  | sample {n : Nat} {c : Chunk} (idx : Index) (hc : Shaped objs .tuple c) :
      Shaped objs .keys (.node (.psrsSample n) idx [c])
  | pivot {n : Nat} {ins : List Chunk} (idx : Index) (hins : ∀ c ∈ ins, Shaped objs .keys c) :
      Shaped objs .keys (.node (.concatPivot n) idx ins)

/-- What a chunk holds stands for its value: a frame for what the map stage makes of it, a tuple (of one entry per
step) for its `tupleMean`, buckets and exchanges part by part, an agg dict for the tuple its steps finalized, keys
for nothing. -/
def Agrees : Kind → Held α → Val (Nat → N) → Prop
  | .frame, .frame x, .data m => m = D.rawMean x
  | .tuple, .tuple t, .data m => t.length = op.aggFuncs.length ∧ tupleMean D.mean t = m
  | .buckets n, .buckets bs, .parts ps =>
    bs.length = n ∧ (∀ b ∈ bs, b.length = op.aggFuncs.length) ∧ bs.map (tupleMean D.mean) = ps
  | .exchange n, .exchange bss, .exchange pss =>
    bss ≠ [] ∧ (∀ bs ∈ bss, bs.length = n ∧ ∀ b ∈ bs, b.length = op.aggFuncs.length) ∧
      bss.map (·.map (tupleMean D.mean)) = pss
  | .dict, .dict d, .data m => ∃ t, t.length = op.aggFuncs.length ∧
      d = (op.aggFuncs.zip t).map (fun (s, a) => (s.outputKey, .entry (D.aggOut s a))) ∧ tupleMean D.mean t = m
  | .keys, .keys, .data m => m = 0
  | _, _, _ => False

section Inversion

variable {D} {h : Held α} {w : Val (Nat → N)}

theorem Agrees.frame (hag : Agrees D .frame h w) : ∃ x, h = .frame x ∧ w.total = D.rawMean x := by
  cases h <;> cases w <;> simp only [Agrees] at hag
  exact ⟨_, rfl, hag⟩

theorem Agrees.tuple (hag : Agrees D .tuple h w) :
    ∃ t, h = .tuple t ∧ tupleMean D.mean t = w.total ∧ t.length = op.aggFuncs.length := by
  cases h <;> cases w <;> simp only [Agrees] at hag
  exact ⟨_, rfl, hag.2, hag.1⟩

theorem Agrees.buckets {n : Nat} (hag : Agrees D (.buckets n) h w) :
    ∃ bs, h = .buckets bs ∧ bs.map (tupleMean D.mean) = w.buckets ∧
      (bs.length = n ∧ ∀ b ∈ bs, b.length = op.aggFuncs.length) := by
  cases h <;> cases w <;> simp only [Agrees] at hag
  exact ⟨_, rfl, hag.2.2, hag.1, hag.2.1⟩

theorem Agrees.exchange {n : Nat} (hag : Agrees D (.exchange n) h w) :
    ∃ bss, h = .exchange bss ∧ bss ≠ [] ∧
      (∀ bs ∈ bss, bs.length = n ∧ ∀ b ∈ bs, b.length = op.aggFuncs.length) ∧
      w = .exchange (bss.map (·.map (tupleMean D.mean))) := by
  cases h <;> cases w <;> simp only [Agrees] at hag
  obtain ⟨hne, hlen, rfl⟩ := hag
  exact ⟨_, rfl, hne, hlen, rfl⟩

theorem Agrees.keys (hag : Agrees D .keys h w) : h = .keys ∧ w.total = 0 := by
  cases h <;> cases w <;> simp only [Agrees] at hag
  exact ⟨rfl, hag⟩

theorem Agrees.dict (hag : Agrees D .dict h w) :
    ∃ t, h = .dict ((op.aggFuncs.zip t).map fun (s, a) => (s.outputKey, .entry (D.aggOut s a))) ∧
      tupleMean D.mean t = w.total ∧ t.length = op.aggFuncs.length := by
  cases h <;> cases w <;> simp only [Agrees] at hag
  obtain ⟨t, hlen, rfl, ht⟩ := hag
  exact ⟨t, rfl, ht, hlen⟩

end Inversion

/-! ## The run simulates the plan's meaning -/

theorem Chunk.run_single {R : Runner α} {op : AggOp} {objs : List String} {xs : Nat → α} (o : Operand)
    (idx : Index) (c : Chunk) :
    (Chunk.node o idx [c]).run R op objs xs = c.run R op objs xs >>= fun h => R.operate op objs o [h] := by
  rw [Chunk.run_node, List.mapM_cons, List.mapM_nil]
  cases c.run R op objs xs <;> rfl

/-- **The run simulates the plan's meaning**: with distinct output keys and every `output_limit` equal to `1`, every
chunk built the way tilings build them runs, and what it holds stands for its value under `Chunk.eval`, input chunk
`i` standing for what the map stage makes of `xs i`. -/
theorem run_agrees (hnd : (op.aggFuncs.map (·.outputKey)).Nodup) (h1 : ∀ s ∈ op.aggFuncs, s.outputLimit = 1)
    {objs : List String} (xs : Nat → α) {κ : Kind} {c : Chunk} (hc : Shaped objs κ c) :
    ∃ h, c.run R op objs xs = .ok h ∧ Agrees D κ h (c.eval sp fun i => D.rawMean (xs i)) := by
  induction hc with
  | source i idx => exact ⟨_, rfl, rfl⟩
  | @map r c idx hr _ ih =>
    obtain ⟨h, hrun, hag⟩ := ih
    obtain ⟨x, rfl, hx⟩ := hag.frame
    have hmap : executeMap R.impl objs (op.at .map r) x = .ok _ :=
      executeMap_ok R.impl (fun s hs => D.mapStep_eq s hs r x) (by simpa using hr)
    refine ⟨_, by rw [Chunk.run_single, hrun]; exact mapError_map_ok hmap, ?_⟩
    simp only [Chunk.eval_node, Operand.apply, Agrees, List.map_cons, List.map_nil, List.sum_cons, List.sum_nil,
      add_zero, hx, AggOp.aggFuncs_at, List.length_map, true_and]
    rfl
  | @concat ins idx hne _ ih =>
    have hins : ∀ c ∈ ins, ∃ t, c.run R op objs xs = .ok (Held.tuple t) ∧
        tupleMean D.mean t = (c.eval sp fun i => D.rawMean (xs i)).total ∧ t.length = op.aggFuncs.length :=
      fun c hc => by
        obtain ⟨h, hrun, hag⟩ := ih c hc
        obtain ⟨t, rfl, ht⟩ := hag.tuple
        exact ⟨t, hrun, ht⟩
    obtain ⟨ts, hruns, hmean, hlen⟩ := mapM_ok_map hins
    have hl : ts.length = ins.length := by simpa using congrArg List.length hmean
    have hts : ts ≠ [] := List.ne_nil_of_length_pos (hl ▸ List.length_pos.mpr hne)
    obtain ⟨u, hu, hk, humean⟩ := concatTuples_ok D.mean_concat hts hlen
    refine ⟨.tuple u, ?_, ?_⟩
    · rw [Chunk.run_node, hruns]
      exact (Runner.operate_concat R op objs _).trans (by rw [mapM_toTuple]; exact mapError_map_ok hu)
    · simp [Agrees, hk, humean, hmean, List.map_map, Function.comp_def]
  | @combine r c idx _ ih =>
    obtain ⟨h, hrun, hag⟩ := ih
    obtain ⟨t, rfl, ht, hlen⟩ := hag.tuple
    have hcomb : executeCombine R.impl (op.at .combine r) t = .ok _ :=
      executeCombine_ok R.impl hnd h1 hlen fun s hs a => D.ownCombineStep_eq s hs r a
    refine ⟨_, by rw [Chunk.run_single, hrun]; exact mapError_map_ok hcomb, ?_⟩
    simp only [Chunk.eval_node, Operand.apply, Agrees, List.map_cons, List.map_nil, List.sum_cons, List.sum_nil,
      add_zero, AggOp.aggFuncs_at, List.length_zipWith, hlen, min_self, true_and]
    rw [tupleMean_zipWith hlen D.mean_combineOut, ht]
  | @agg r c idx _ ih =>
    obtain ⟨h, hrun, hag⟩ := ih
    obtain ⟨t, rfl, ht, hlen⟩ := hag.tuple
    have hsteps : executeAggSteps R.impl (op.at .agg r) t = .ok _ :=
      executeAggSteps_ok R.impl hnd h1 hlen fun s hs a => D.aggOwnStep_eq s hs r a
    refine ⟨.dict ((op.aggFuncs.zip t).map fun (s, a) => (s.outputKey, .entry (D.aggOut s a))), ?_, ?_⟩
    · rw [Chunk.run_single, hrun]
      exact mapError_map_ok hsteps
    · simp only [Chunk.eval_node, Operand.apply, Agrees, List.map_cons, List.map_nil, List.sum_cons, List.sum_nil,
        add_zero]
      exact ⟨t, hlen, rfl, ht⟩
  | @hashMap n c idx _ ih =>
    obtain ⟨h, hrun, hag⟩ := ih
    obtain ⟨t, rfl, ht, hlen⟩ := hag.tuple
    refine ⟨.buckets (R.split t n), by rw [Chunk.run_single, hrun]; rfl, D.length_split t n,
      fun b hb => (D.length_of_mem_split t n b hb).trans hlen, ?_⟩
    simp [D.split_mean, ht]
  | @sortMap size n c p idx _ _ ihc ihp =>
    obtain ⟨h, hrun, hag⟩ := ihc
    obtain ⟨t, rfl, ht, hlen⟩ := hag.tuple
    obtain ⟨hp, hprun, hpag⟩ := ihp
    obtain ⟨rfl, hp0⟩ := hpag.keys
    refine ⟨.buckets (R.split t n), ?_, D.length_split t n,
      fun b hb => (D.length_of_mem_split t n b hb).trans hlen, ?_⟩
    · rw [Chunk.run_node]
      simp only [List.mapM_cons, List.mapM_nil, hrun, hprun, bind, Except.bind, pure, Except.pure]
      rfl
    · simp [D.split_mean, ht, hp0]
  | @proxy n ins idx hne _ ih =>
    have hins : ∀ c ∈ ins, ∃ bs, c.run R op objs xs = .ok (Held.buckets bs) ∧
        bs.map (tupleMean D.mean) = (c.eval sp fun i => D.rawMean (xs i)).buckets ∧
        (bs.length = n ∧ ∀ b ∈ bs, b.length = op.aggFuncs.length) :=
      fun c hc => by
        obtain ⟨h, hrun, hag⟩ := ih c hc
        obtain ⟨bs, rfl, hbs⟩ := hag.buckets
        exact ⟨bs, hrun, hbs⟩
    obtain ⟨bss, hruns, hmean, hlen⟩ := mapM_ok_map hins
    have hl : bss.length = ins.length := by simpa using congrArg List.length hmean
    refine ⟨.exchange bss, ?_, List.ne_nil_of_length_pos (hl ▸ List.length_pos.mpr hne), hlen, ?_⟩
    · rw [Chunk.run_node, hruns]
      exact (Runner.operate_shuffleProxy R op objs _).trans (by rw [mapM_toBuckets])
    · simpa [List.map_map, Function.comp_def] using hmean
  | @reduce o b n m c idx hop hb _ ih =>
    obtain ⟨h, hrun, hag⟩ := ih
    obtain ⟨bss, rfl, hne, hlen, hw⟩ := hag.exchange
    obtain ⟨u, hu, hk, humean⟩ := reduceBucket_ok D.mean_concat hb hne hlen
    refine ⟨.tuple u, ?_, ?_⟩
    · rw [Chunk.run_single, hrun]
      rcases hop with rfl | rfl <;> exact mapError_map_ok hu
    · rcases hop with rfl | rfl <;> simp [Agrees, hk, humean, hw]
  | sample idx _ ih =>
    obtain ⟨h, hrun, hag⟩ := ih
    obtain ⟨t, rfl, -⟩ := hag.tuple
    exact ⟨.keys, by rw [Chunk.run_single, hrun]; rfl, by simp [Agrees]⟩
  | @pivot n ins idx _ ih =>
    have hruns : ins.mapM (Chunk.run R op objs xs) = .ok (ins.map fun _ => .keys) := mapM_eq_ok fun c hc => by
      obtain ⟨h, hrun, hag⟩ := ih c hc
      obtain ⟨rfl, -⟩ := hag.keys
      exact hrun
    refine ⟨.keys, ?_, by simp [Agrees]⟩
    rw [Chunk.run_node, hruns]
    exact (Runner.operate_concatPivot R op objs n _).trans (by simp [Held.isKeys])

end Meaning

/-! ## What tilings build -/

section Tiling

variable {objs : List String}

theorem Shaped.withIndex {κ : Kind} {c : Chunk} (h : Shaped objs κ c) (idx : Index) :
    Shaped objs κ (c.withIndex idx) := by
  cases h with
  | source i _ => exact .source i idx
  | map _ hr hc => exact .map idx hr hc
  | concat _ hne hins => exact .concat idx hne hins
  | combine _ hc => exact .combine idx hc
  | agg _ hc => exact .agg idx hc
  | hashMap _ hc => exact .hashMap idx hc
  | sortMap _ hc hp => exact .sortMap idx hc hp
  | proxy _ hne hins => exact .proxy idx hne hins
  | reduce _ hop hb hc => exact .reduce idx hop hb hc
  | sample _ hc => exact .sample idx hc
  | pivot _ hins => exact .pivot idx hins

theorem shaped_chunks (inDf : InputTileable) : ∀ c ∈ inDf.chunks, Shaped objs .frame c := by
  simp only [InputTileable.chunks, List.mem_map]
  rintro _ ⟨i, -, rfl⟩
  exact .source _ _

theorem shaped_genMapChunks (op : DataFrameGroupByAgg) {cs : List Chunk} (h : ∀ c ∈ cs, Shaped objs .frame c) :
    ∀ c ∈ genMapChunks op cs, Shaped objs .tuple c := by
  simp only [genMapChunks, List.mem_map]
  rintro _ ⟨c, hc, rfl⟩
  exact .map _ (fun _ h => Option.noConfusion h) (h c hc)

/-- The probe's map chunks run while their size recorder is alive. -/
theorem shaped_probe {op : DataFrameGroupByAgg} {inDf : InputTileable} {name : String} (hname : name ∈ objs) :
    ∀ c ∈ probeChunks op inDf name, Shaped objs .tuple c := by
  simp only [probeChunks, genMapChunks, List.map_map, List.mem_map, Function.comp_def]
  rintro _ ⟨c, hc, rfl⟩
  exact .map _ (fun _ h => Option.some.inj h ▸ hname) (shaped_chunks inDf c (List.mem_of_mem_take hc))

theorem batch_ne_nil {c idx : Nat} {cs : List Chunk} (hc : 0 < c) (hidx : idx < nBatches c cs.length) :
    batch c cs idx ≠ [] := by
  have hle := (Nat.le_div_iff_mul_le hc).mp (Nat.succ_le_of_lt hidx)
  rw [Nat.succ_mul] at hle
  simp only [batch, ne_eq, List.take_eq_nil_iff, List.drop_eq_nil_iff, not_or]
  omega

theorem shaped_batchChunk {chks : List Chunk} (hne : chks ≠ []) (h : ∀ c ∈ chks, Shaped objs .tuple c) :
    Shaped objs .tuple (batchChunk chks) := by
  rcases batchChunk_cases chks with ⟨c, rfl, hb⟩ | hb <;> rw [hb]
  · exact h c (List.mem_singleton_self c)
  · refine .concat [] (by simpa [Chunk.reindex] using hne) fun d hd => ?_
    obtain ⟨e, he, idx, rfl⟩ := Chunk.mem_reindex hd
    exact (h e he).withIndex idx

/-- **Step lemma**: a round builds its chunks the way tilings do. -/
theorem shaped_treeRound (c : Nat) {cs : List Chunk} (h : ∀ d ∈ cs, Shaped objs .tuple d) :
    ∀ d ∈ treeRound c cs, Shaped objs .tuple d := by
  simp only [treeRound, List.mem_map, List.mem_range]
  rintro _ ⟨idx, hidx, rfl⟩
  have hc : 0 < c := Nat.pos_of_ne_zero fun h0 => by simp [h0, nBatches] at hidx
  exact .combine _ (shaped_batchChunk (batch_ne_nil hc hidx) fun d hd => h d (mem_of_mem_batch hd))

/-- Every chunk list a tiling hands to its final stage holds tuples, when the probe's recorder is alive. -/
theorem shaped_tilePlan {rt : Runtime} {fuel : Nat} {op : DataFrameGroupByAgg} {inDf : InputTileable} {fin : Finish}
    {objs' : List String} (h : tilePlan rt fuel op inDf = .ok (fin, objs')) (hrec : rt.recorderName ∈ objs) :
    ∀ d ∈ fin.chunks, Shaped objs .tuple d :=
  have hin : ∀ c ∈ inDf.chunks, Shaped objs .frame c := shaped_chunks inDf
  tilePlan_induction (fun cs => ∀ d ∈ cs, Shaped objs .tuple d) (shaped_genMapChunks op hin)
    (fun d hd => (List.mem_append.mp hd).elim (shaped_probe hrec d)
      (shaped_genMapChunks op (fun c hc => hin c (List.mem_of_mem_drop hc)) d))
    (fun _ _ hs => shaped_treeRound _ hs) h

theorem shaped_buildOutTileable {op : DataFrameGroupByAgg} {cs : List Chunk} {out : Tileable}
    (h : buildOutTileable op cs = .ok out) (hcs : ∀ d ∈ cs, Shaped objs .tuple d) :
    ∀ o ∈ out.chunks, Shaped objs .dict o := by
  obtain ⟨hne, rfl⟩ := buildOutTileable_ok h
  simp only [List.mem_singleton]
  rintro _ rfl
  refine .agg _ ?_
  rcases concatOut_cases cs with ⟨c, rfl, hc⟩ | hc <;> rw [hc]
  · exact hcs c (List.mem_singleton_self c)
  · exact .concat [] hne hcs

theorem shaped_reduceChunks (op : DataFrameGroupByAgg) (inDf : InputTileable) {as : List Chunk}
    (h : ∀ a ∈ as, Shaped objs .tuple a) : ∀ r ∈ reduceChunks op inDf as, Shaped objs .tuple r := by
  unfold reduceChunks
  split
  · have hpivot : Shaped objs .keys (genPivotChunk (sampleChunks op as) as.length) :=
      .pivot [] fun d hd => by
        obtain ⟨⟨i, a⟩, ha, rfl⟩ := List.mem_map.mp hd
        exact .sample _ (h a (List.snd_mem_of_mem_enum ha))
    simp only [genShuffleChunksWithPivot, partitionMergeData, List.forall_mem_map]
    rintro ⟨i, m⟩ hm
    have hi : i < as.length := by simpa [partitionLocalData] using List.fst_lt_of_mem_enum hm
    refine .reduce _ (.inr rfl) hi (.proxy [] (List.ne_nil_of_length_pos (by simp [partitionLocalData]; omega))
      fun d hd => ?_)
    obtain ⟨a, ha, rfl⟩ := List.mem_map.mp hd
    exact .sortMap _ (h a ha) hpivot
  · simp only [genShuffleChunks, List.forall_mem_map, List.mem_range, newReducerIndex]
    intro i hi
    refine .reduce _ (.inl rfl) (by simpa using hi) (.proxy [] (List.ne_nil_of_length_pos (by simp; omega))
      fun d hd => ?_)
    obtain ⟨a, ha, rfl⟩ := List.mem_map.mp hd
    exact .hashMap _ (h a ha)

theorem shaped_performShuffle {op : DataFrameGroupByAgg} {inDf : InputTileable} {as : List Chunk}
    (h : ∀ a ∈ as, Shaped objs .tuple a) : ∀ o ∈ (performShuffle op inDf as).chunks, Shaped objs .dict o := by
  simp only [performShuffle, List.forall_mem_map]
  exact fun r hr => .agg _ (shaped_reduceChunks op inDf h r hr)

/-- Every tiling builds its output chunks the way `Shaped` says, when the probe's recorder is alive. -/
theorem shaped_tile {rt : Runtime} {fuel : Nat} {op : DataFrameGroupByAgg} {inDf : InputTileable} {out : Tileable}
    {objs' : List String} (h : tile rt fuel op inDf = .ok (out, objs')) (hrec : rt.recorderName ∈ objs) :
    ∀ o ∈ out.chunks, Shaped objs .dict o := by
  obtain ⟨fin, hplan, hbuild⟩ := tile_ok h
  have hst := shaped_tilePlan hplan hrec
  cases fin with
  | tree cs => exact shaped_buildOutTileable hbuild hst
  | shuffle cs => cases hbuild; exact shaped_performShuffle hst

end Tiling

/-! ## Summing numbers -/

/-- A runner over numbers: a frame is a number, every aggregation function and the concatenation sum, and the
shuffle sends a tuple to its first reducer. -/
def sumRunner : Runner ℚ where
  impl := ⟨fun _ _ p => match p with
    | .entry a => a
    | .tuple as => as.sum, fun _ => none⟩
  concat := List.sum
  split t n := if n = 0 then [] else t :: List.replicate (n - 1) (t.map fun _ => 0)

/-- `agg("sum")` on a Series groupby: one predefined step. -/
def sumAggOp : AggOp :=
  ⟨.map, some (.name "sum"), [], .list ["sum"], none, [⟨"", "sum", "sum", "sum", false, "0", 1⟩], none⟩

/-- Numbers decompose `agg("sum")`: every stage keeps a number, and the first-reducer shuffle splits it as
`Splitter.first` does. -/
def sumDecomposition : Decomposition sumRunner sumAggOp (Splitter.first : Splitter (Nat → ℚ)) where
  mean _ a := a
  mapOut _ x := x
  combineOut _ a := a
  aggOut _ a := a
  mapStep_eq s hs _ _ := by
    obtain rfl : s = ⟨"", "sum", "sum", "sum", false, "0", 1⟩ := by simpa [sumAggOp] using hs
    rfl
  ownCombineStep_eq s hs _ _ := by
    obtain rfl : s = ⟨"", "sum", "sum", "sum", false, "0", 1⟩ := by simpa [sumAggOp] using hs
    rfl
  aggOwnStep_eq s hs _ _ := by
    obtain rfl : s = ⟨"", "sum", "sum", "sum", false, "0", 1⟩ := by simpa [sumAggOp] using hs
    rfl
  mean_concat _ ps := by simp [sumRunner]
  mean_combineOut _ _ _ := rfl
  mean_aggOut _ _ _ := rfl
  length_split t n := by
    dsimp only [sumRunner]
    split_ifs with h <;> simp <;> omega
  length_of_mem_split t n b hb := by
    simp only [sumRunner] at hb
    split_ifs at hb
    · simp at hb
    · rcases List.mem_cons.mp hb with rfl | hb
      · rfl
      · rw [List.eq_of_mem_replicate hb, List.length_map]
  split_mean t n := by
    simp only [sumRunner, Splitter.first]
    split_ifs
    · rfl
    · rw [List.map_cons, List.map_replicate]
      congr 2
      funext j
      simp only [tupleMean, List.getElem?_map]
      cases t[j]? <;> rfl

/-! ## Running a tiling -/

section Whole

variable {α N : Type} [AddCommMonoid N] {R : Runner α} {op : AggOp} {sp : Splitter (Nat → N)}
  (D : Decomposition R op sp)

/-- Every output chunk of every tiling runs to the agg stage's results on a tuple that stands for its value. -/
theorem run_tile_chunk (hnd : (op.aggFuncs.map (·.outputKey)).Nodup) (h1 : ∀ s ∈ op.aggFuncs, s.outputLimit = 1)
    {rt : Runtime} {fuel : Nat} {pop : DataFrameGroupByAgg} {inDf : InputTileable} {out : Tileable}
    {objs' : List String} (h : tile rt fuel pop inDf = .ok (out, objs')) {objs : List String}
    (hrec : rt.recorderName ∈ objs) (xs : Nat → α) :
    ∀ o ∈ out.chunks, ∃ t, o.run R op objs xs =
        .ok (.dict ((op.aggFuncs.zip t).map fun (s, a) => (s.outputKey, .entry (D.aggOut s a)))) ∧
      tupleMean D.mean t = o.value sp (fun i => D.rawMean (xs i)) ∧ t.length = op.aggFuncs.length := fun o ho => by
  obtain ⟨hd, hrun, hag⟩ := run_agrees D hnd h1 xs (shaped_tile h hrec o ho)
  obtain ⟨t, rfl, ht⟩ := hag.dict
  exact ⟨t, hrun, ht⟩

/-- **Running a tiling computes the whole**: with distinct output keys and every `output_limit` equal to `1`, for
every `Decomposition` of the steps, every tiling with `combine_size ≥ 0` (tree, shuffle with or without pivots,
auto after any number of rounds) and every data of the input chunks, every output chunk runs, while the probe's recorder is alive, to the agg
stage's results on a tuple with an entry per step, and these tuples together stand for what the map stage makes of
the input chunks. -/
theorem run_tile_aggregates_whole (hnd : (op.aggFuncs.map (·.outputKey)).Nodup)
    (h1 : ∀ s ∈ op.aggFuncs, s.outputLimit = 1) {rt : Runtime} {fuel : Nat} {pop : DataFrameGroupByAgg}
    {inDf : InputTileable} {out : Tileable} {objs' : List String} (hc : 0 ≤ pop.combineSize)
    (h : tile rt fuel pop inDf = .ok (out, objs')) {objs : List String} (hrec : rt.recorderName ∈ objs)
    (xs : Nat → α) :
    ∃ ts : List (List α), out.chunks.mapM (Chunk.run R op objs xs) =
        .ok (ts.map fun t => .dict ((op.aggFuncs.zip t).map fun (s, a) => (s.outputKey, .entry (D.aggOut s a)))) ∧
      (∀ t ∈ ts, t.length = op.aggFuncs.length) ∧
      (ts.map (tupleMean D.mean)).sum = ((List.range inDf.nChunks).map fun i => D.rawMean (xs i)).sum := by
  obtain ⟨ts, hruns, hmean, hlen⟩ := mapM_ok_map (run_tile_chunk D hnd h1 h hrec xs)
  exact ⟨ts, hruns, hlen, by rw [hmean, sum_value_tile sp _ hc h]⟩

theorem run_tile_aggregates_whole_three_chunks :
    ∃ out objs', tile ⟨[], "", []⟩ 3 ⟨"tree", 2, 1024, true, .dataframe, 1⟩ ⟨3, true⟩ = .ok (out, objs') ∧
      (sumAggOp.aggFuncs.map (·.outputKey)).Nodup ∧ (∀ s ∈ sumAggOp.aggFuncs, s.outputLimit = 1) ∧
      (0 : Int) ≤ 2 ∧ "" ∈ [""] ∧
      ∃ ts : List (List ℚ), out.chunks.mapM (Chunk.run sumRunner sumAggOp [""] fun i => (i : ℚ)) =
          .ok (ts.map fun t => .dict ((sumAggOp.aggFuncs.zip t).map fun (s, a) =>
            (s.outputKey, .entry (sumDecomposition.aggOut s a)))) ∧
        (∀ t ∈ ts, t.length = sumAggOp.aggFuncs.length) ∧
        (ts.map (tupleMean sumDecomposition.mean)).sum =
          ((List.range 3).map fun i => sumDecomposition.rawMean (i : ℚ)).sum := by
  obtain ⟨p, hp⟩ : ∃ p, tile ⟨[], "", []⟩ 3 ⟨"tree", 2, 1024, true, .dataframe, 1⟩ ⟨3, true⟩ = .ok p :=
    ⟨_, rfl⟩
  exact ⟨p.1, p.2, hp, by decide, by decide, by decide, by decide,
    run_tile_aggregates_whole sumDecomposition (by decide) (by decide) (by decide) hp (by decide) _⟩

/-- What a frame stands for at step `j` is what the map stage's step `j` makes of it. -/
theorem rawMean_apply {x : α} {j : Nat} (hj : j < op.aggFuncs.length) :
    D.rawMean x j = D.mean j (D.mapOut op.aggFuncs[j] x) := by
  rw [Decomposition.rawMean, tupleMean_of_lt (by simpa using hj), List.getElem_map]

/-- **One output chunk holds the result on all the data**: when the map stage's steps make of a concatenation the sum
of what they make of its parts and the agg stage's steps depend only on what their entry stands for, a tiling with
`combine_size ≥ 0` and a single output chunk (every tree, auto keeping the tree, a shuffle of one chunk) holds, for every step, the agg
stage's result on the map stage's result on the concatenation of all input chunks. -/
theorem run_single_output_eq_whole (hnd : (op.aggFuncs.map (·.outputKey)).Nodup)
    (h1 : ∀ s ∈ op.aggFuncs, s.outputLimit = 1)
    (hmap : ∀ j (hj : j < op.aggFuncs.length) (ys : List α),
      D.mean j (D.mapOut op.aggFuncs[j] (R.concat ys)) = (ys.map fun y => D.mean j (D.mapOut op.aggFuncs[j] y)).sum)
    (hagg : ∀ j (hj : j < op.aggFuncs.length) (a b : α),
      D.mean j a = D.mean j b → D.aggOut op.aggFuncs[j] a = D.aggOut op.aggFuncs[j] b)
    {rt : Runtime} {fuel : Nat} {pop : DataFrameGroupByAgg} {inDf : InputTileable} {out : Tileable}
    {objs' : List String} (hc : 0 ≤ pop.combineSize) (h : tile rt fuel pop inDf = .ok (out, objs')) {o : Chunk}
    (hone : out.chunks = [o])
    {objs : List String} (hrec : rt.recorderName ∈ objs) (xs : Nat → α) :
    o.run R op objs xs = .ok (.dict (op.aggFuncs.map fun s =>
      (s.outputKey, .entry (D.aggOut s (D.mapOut s (R.concat ((List.range inDf.nChunks).map xs))))))) := by
  obtain ⟨t, hrun, hmean, hlen⟩ := run_tile_chunk D hnd h1 h hrec xs o (hone ▸ List.mem_singleton_self o)
  have hval : o.value sp (fun i => D.rawMean (xs i)) =
      ((List.range inDf.nChunks).map fun i => D.rawMean (xs i)).sum := by
    simpa [hone] using sum_value_tile sp (fun i => D.rawMean (xs i)) hc h
  rw [hrun]
  refine congrArg (fun d => Except.ok (Held.dict d)) (List.ext_getElem (by simp [hlen]) fun j hj₁ hj₂ => ?_)
  have hj : j < op.aggFuncs.length := by simpa using hj₂
  have htj : j < t.length := hlen ▸ hj
  simp only [List.getElem_map, List.getElem_zip]
  refine congrArg (fun a => (op.aggFuncs[j].outputKey, Packed.entry a)) (hagg j hj _ _ ?_)
  calc D.mean j t[j] = tupleMean D.mean t j := (tupleMean_of_lt htj).symm
    _ = ((List.range inDf.nChunks).map fun i => D.mean j (D.mapOut op.aggFuncs[j] (xs i))).sum := by
      rw [hmean, hval, Pi.list_sum_apply, List.map_map]
      exact congrArg List.sum (List.map_congr_left fun i _ => rawMean_apply D hj)
    _ = D.mean j (D.mapOut op.aggFuncs[j] (R.concat ((List.range inDf.nChunks).map xs))) := by
      rw [hmap j hj, List.map_map]
      rfl

theorem run_single_output_eq_whole_three_chunks :
    ∃ out objs' o, tile ⟨[], "", []⟩ 3 ⟨"tree", 2, 1024, true, .dataframe, 1⟩ ⟨3, true⟩ = .ok (out, objs') ∧
      out.chunks = [o] ∧ (sumAggOp.aggFuncs.map (·.outputKey)).Nodup ∧
      (∀ s ∈ sumAggOp.aggFuncs, s.outputLimit = 1) ∧ (0 : Int) ≤ 2 ∧
      (∀ j (hj : j < sumAggOp.aggFuncs.length) (ys : List ℚ),
        sumDecomposition.mean j (sumDecomposition.mapOut sumAggOp.aggFuncs[j] (sumRunner.concat ys)) =
          (ys.map fun y => sumDecomposition.mean j (sumDecomposition.mapOut sumAggOp.aggFuncs[j] y)).sum) ∧
      (∀ j (hj : j < sumAggOp.aggFuncs.length) (a b : ℚ), sumDecomposition.mean j a = sumDecomposition.mean j b →
        sumDecomposition.aggOut sumAggOp.aggFuncs[j] a = sumDecomposition.aggOut sumAggOp.aggFuncs[j] b) ∧
      "" ∈ [""] ∧
      o.run sumRunner sumAggOp [""] (fun i => (i : ℚ)) = .ok (.dict (sumAggOp.aggFuncs.map fun s =>
        (s.outputKey, .entry (sumDecomposition.aggOut s (sumDecomposition.mapOut s
          (sumRunner.concat ((List.range 3).map fun i => (i : ℚ)))))))) := by
  obtain ⟨p, hp⟩ : ∃ p, tile ⟨[], "", []⟩ 3 ⟨"tree", 2, 1024, true, .dataframe, 1⟩ ⟨3, true⟩ = .ok p :=
    ⟨_, rfl⟩
  obtain ⟨o, ho⟩ : ∃ o, p.1.chunks = [o] := by
    have hlen :
        (tile ⟨[], "", []⟩ 3 ⟨"tree", 2, 1024, true, .dataframe, 1⟩ ⟨3, true⟩).map (·.1.chunks.length) = .ok 1 :=
      rfl
    rw [hp] at hlen
    exact List.length_eq_one.mp (Except.ok.inj hlen)
  have hmap : ∀ j (hj : j < sumAggOp.aggFuncs.length) (ys : List ℚ),
      sumDecomposition.mean j (sumDecomposition.mapOut sumAggOp.aggFuncs[j] (sumRunner.concat ys)) =
        (ys.map fun y => sumDecomposition.mean j (sumDecomposition.mapOut sumAggOp.aggFuncs[j] y)).sum :=
    fun _ _ ys => by simp [sumDecomposition, sumRunner]
  exact ⟨p.1, p.2, o, hp, ho, by decide, by decide, by decide, hmap, fun _ _ _ _ h => h, by decide,
    run_single_output_eq_whole sumDecomposition (by decide) (by decide) hmap (fun _ _ _ _ h => h) (by decide) hp ho
      (by decide) _⟩

/-- **Each output of a shuffle holds its bucket**: with distinct output keys and every `output_limit` equal to `1`,
for every `Decomposition`, a shuffle tiling (with pivots or without) of `n` input chunks has `n` output chunks, and
output chunk `b` runs to the agg stage's results on a tuple that stands for part `b` of what the map stage makes of
every input chunk. -/
theorem run_shuffle_output_bucket (hnd : (op.aggFuncs.map (·.outputKey)).Nodup)
    (h1 : ∀ s ∈ op.aggFuncs, s.outputLimit = 1) {rt : Runtime} {fuel : Nat} {pop : DataFrameGroupByAgg}
    {inDf : InputTileable} {out : Tileable} {objs' : List String} (hm : pop.method = "shuffle")
    (h : tile rt fuel pop inDf = .ok (out, objs')) (objs : List String) (xs : Nat → α) :
    out.chunks.length = inDf.nChunks ∧ ∀ b (hb : b < out.chunks.length), ∃ t,
      out.chunks[b].run R op objs xs =
          .ok (.dict ((op.aggFuncs.zip t).map fun (s, a) => (s.outputKey, .entry (D.aggOut s a)))) ∧
        t.length = op.aggFuncs.length ∧
        tupleMean D.mean t =
          ((List.range inDf.nChunks).map fun i => (sp.split (D.rawMean (xs i)) inDf.nChunks).getD b 0).sum := by
  have hout : out = performShuffle pop inDf (genMapChunks pop inDf.chunks) := by
    have htile : tile rt fuel pop inDf =
        .ok (performShuffle pop inDf (genMapChunks pop inDf.chunks), rt.remoteObjects) := by
      simp [tile, tilePlan, hm, tileWithShuffle, Finish.build, Except.bind, Except.map]
    rw [htile] at h
    cases h
    rfl
  subst hout
  have hvals := values_performShuffle_genMapChunks sp (fun i => D.rawMean (xs i)) pop inDf
  have hlen : (performShuffle pop inDf (genMapChunks pop inDf.chunks)).chunks.length = inDf.nChunks := by
    simpa using congrArg List.length hvals
  refine ⟨hlen, fun b hb => ?_⟩
  obtain ⟨hd, hrun, hag⟩ := run_agrees D hnd h1 xs
    (shaped_performShuffle (shaped_genMapChunks pop (shaped_chunks inDf : ∀ c ∈ inDf.chunks, Shaped objs .frame c)) _
      (List.getElem_mem hb))
  obtain ⟨t, rfl, ht, htl⟩ := hag.dict
  refine ⟨t, hrun, htl, ?_⟩
  have hb' := List.getElem_of_eq hvals (by simpa using hb)
  rw [List.getElem_map, List.getElem_map, List.getElem_range] at hb'
  exact ht.trans hb'

theorem run_shuffle_output_bucket_three_chunks :
    ∃ out objs', tile ⟨[], "", []⟩ 1 ⟨"shuffle", 2, 1024, true, .dataframe, 1⟩ ⟨3, true⟩ = .ok (out, objs') ∧
      out.chunks.length = 3 ∧ ∀ b (hb : b < out.chunks.length), ∃ t,
        out.chunks[b].run sumRunner sumAggOp [] (fun i => (i : ℚ)) =
            .ok (.dict ((sumAggOp.aggFuncs.zip t).map fun (s, a) =>
              (s.outputKey, .entry (sumDecomposition.aggOut s a)))) ∧
          t.length = sumAggOp.aggFuncs.length ∧
          tupleMean sumDecomposition.mean t = ((List.range 3).map fun i =>
            ((Splitter.first : Splitter (Nat → ℚ)).split (sumDecomposition.rawMean (i : ℚ)) 3).getD b 0).sum := by
  obtain ⟨p, hp⟩ : ∃ p, tile ⟨[], "", []⟩ 1 ⟨"shuffle", 2, 1024, true, .dataframe, 1⟩ ⟨3, true⟩ = .ok p :=
    ⟨_, rfl⟩
  exact ⟨p.1, p.2, hp, run_shuffle_output_bucket sumDecomposition (by decide) (by decide) rfl hp [] _⟩

end Whole

end GroupByAgg
