import GroupByAgg.Run
import GroupByAgg.Auto

/-!
# The probe of the auto tiling

`_tile_auto` creates a `SizeRecorder` as a remote object, yields the probe's map chunks, reads what they recorded
with `get`, and destroys the recorder. The runtime runs the probe's chunks concurrently: each runs `_execute_map`,
which ends, for an operand that names a size recorder, by looking it up and calling its `record` with the estimated
size of its input and the sum of the estimated sizes of its results. The steps before read only the chunk's own
input, and the recorder, a remote object, serves one call at a time, so a run of the probe is the chunks'
`_execute_map`s in the order their records reach the recorder (`runProbe`).

* **No record is lost or duplicated, in any order** (`probe_records_any_order`): for every order in which the
  probe's chunks finish, the probe runs, the recorder holds the sizes of every probe chunk once, and the tiling
  built from them is the one built from the sizes in chunk order.
* **A probing plan cannot run again** (`probe_plan_rerun_fails`): run in the remote objects the tiling leaves, every
  output chunk of an auto tiling that probes fails, whatever the steps and the data: it reaches a probe chunk, whose
  `_execute_map` looks up the destroyed recorder, and a chunk runs only when all its inputs do.
-/

namespace GroupByAgg

/-! ## The size recorder -/

/-- `SizeRecorder`: the sizes recorded so far, in the order they came. -/
structure SizeRecorder where
  rawRecords : List Nat
  aggRecords : List Nat

/-- `SizeRecorder()`. -/
def SizeRecorder.init : SizeRecorder := ⟨[], []⟩

/-- `record(raw_record, agg_record)`. -/
def SizeRecorder.record (r : SizeRecorder) (rawRecord aggRecord : Nat) : SizeRecorder :=
  ⟨r.rawRecords ++ [rawRecord], r.aggRecords ++ [aggRecord]⟩

/-- `get()`. -/
def SizeRecorder.get (r : SizeRecorder) : List Nat × List Nat := (r.rawRecords, r.aggRecords)

section Probe

variable {α : Type} (impl : AggImpl α) (estimate : α → Nat)

/-- `_execute_map` with its record: after the steps, an operand that names a size recorder looks it up (and fails
when it is gone) and records `estimate_pandas_size(in_data)` and the sum of `estimate_pandas_size` over its
results. -/
def executeMapRecorded (objs : List String) (op : AggOp) (inData : α) (r : SizeRecorder) :
    Except ExecError (List α × SizeRecorder) :=
  (executeMap impl objs op inData).map fun aggDfs =>
    (aggDfs, if op.sizeRecorderName.isSome then r.record (estimate inData) (aggDfs.map estimate).sum else r)

/-- The probe's run: the map chunks of the input chunks in `order`, the order they finish in, each naming the
recorder `name`, record one after another. -/
def runProbe (objs : List String) (op : AggOp) (name : String) (xs : Nat → α) :
    List Nat → SizeRecorder → Except ExecError SizeRecorder
  | [], r => .ok r
  | i :: order, r => do
    let out ← executeMapRecorded impl estimate objs (op.at .map (some name)) (xs i) r
    runProbe objs op name xs order out.2

variable {impl estimate} {op : AggOp} {name : String} {xs : Nat → α}

/-- With the recorder alive and the map stage's steps succeeding, the probe's run appends the sizes of the chunks in
the order they finish. -/
theorem runProbe_ok {objs : List String} {f : ReductionAggStep → α → α}
    (hf : ∀ s ∈ op.aggFuncs, ∀ x, mapStep impl (op.at .map (some name)) x s = .ok (f s x)) (hname : name ∈ objs) :
    ∀ (order : List Nat) (r : SizeRecorder), runProbe impl estimate objs op name xs order r =
      .ok ⟨r.rawRecords ++ order.map (fun i => estimate (xs i)),
        r.aggRecords ++ order.map fun i => ((op.aggFuncs.map fun s => f s (xs i)).map estimate).sum⟩
  | [], r => by simp [runProbe]
  | i :: order, r => by
    have hmap : executeMap impl objs (op.at .map (some name)) (xs i) = .ok (op.aggFuncs.map fun s => f s (xs i)) :=
      executeMap_ok impl (fun s hs => hf s hs (xs i)) fun n hn => Option.some.inj hn ▸ hname
    simp only [runProbe, executeMapRecorded, hmap, Except.map, bind, Except.bind, AggOp.sizeRecorderName_at,
      Option.isSome_some, if_true, List.map_map, Function.comp_def]
    rw [runProbe_ok hf hname order]
    simp [SizeRecorder.record, Function.comp_def]

theorem meanSize_perm {l₁ l₂ : List Nat} (h : l₁.Perm l₂) : meanSize l₁ = meanSize l₂ := by
  simp only [meanSize, h.sum_eq, h.length_eq, List.isEmpty_iff_length_eq_zero]

/-- The tiling reads the recorded sizes only through their mean. -/
theorem tile_perm_sizes {sizes₁ sizes₂ : List Nat} (h : sizes₁.Perm sizes₂) (objs : List String) (name : String)
    (fuel : Nat) (pop : DataFrameGroupByAgg) (inDf : InputTileable) :
    tile ⟨objs, name, sizes₁⟩ fuel pop inDf = tile ⟨objs, name, sizes₂⟩ fuel pop inDf := by
  simp only [tile, tilePlan, tileAuto, buildTreeAndShuffleChunks, meanSize_perm h]

/-- **No record is lost or duplicated, in any order**: when the map stage's steps succeed, for every order in which
the probe's chunks (those of `in_df.chunks[:combine_size]`) finish, the probe runs while the recorder
`_tile_auto` created is alive, the recorder holds the sizes of every probe chunk once, and the tiling built from the
sizes it holds is the one built from the sizes in chunk order. -/
theorem probe_records_any_order {objs : List String} {f : ReductionAggStep → α → α}
    (hf : ∀ s ∈ op.aggFuncs, ∀ x, mapStep impl (op.at .map (some name)) x s = .ok (f s x)) (xs : Nat → α)
    (pop : DataFrameGroupByAgg) (inDf : InputTileable) {order : List Nat}
    (hperm : order.Perm (List.range (sliceIndex inDf.nChunks pop.combineSize))) (fuel : Nat) :
    ∃ r, runProbe impl estimate (createRemoteObject objs name) op name xs order .init = .ok r ∧
      r.get.1.Perm ((List.range (sliceIndex inDf.nChunks pop.combineSize)).map fun i => estimate (xs i)) ∧
      r.get.2.Perm ((List.range (sliceIndex inDf.nChunks pop.combineSize)).map fun i =>
        ((op.aggFuncs.map fun s => f s (xs i)).map estimate).sum) ∧
      tile ⟨objs, name, r.get.2⟩ fuel pop inDf =
        tile ⟨objs, name, (List.range (sliceIndex inDf.nChunks pop.combineSize)).map fun i =>
          ((op.aggFuncs.map fun s => f s (xs i)).map estimate).sum⟩ fuel pop inDf :=
  ⟨_, runProbe_ok hf (List.mem_cons_self name objs) order .init, hperm.map _, hperm.map _,
    tile_perm_sizes (hperm.map _) objs name fuel pop inDf⟩

theorem probe_records_any_order_reversed :
    ∃ r, runProbe sumRunner.impl (fun _ => 8) (createRemoteObject [] "r") sumAggOp "r" (fun i => (i : ℚ)) [1, 0]
        .init = .ok r ∧
      r.get.1.Perm ((List.range (sliceIndex 3 2)).map fun _ => 8) ∧
      r.get.2.Perm ((List.range (sliceIndex 3 2)).map fun i =>
        ((sumAggOp.aggFuncs.map fun s => sumDecomposition.mapOut s (i : ℚ)).map fun _ => 8).sum) ∧
      tile ⟨[], "r", r.get.2⟩ 1 ⟨"auto", 2, 40, true, .dataframe, 1⟩ ⟨3, true⟩ =
        tile ⟨[], "r", (List.range (sliceIndex 3 2)).map fun i =>
          ((sumAggOp.aggFuncs.map fun s => sumDecomposition.mapOut s (i : ℚ)).map fun _ => 8).sum⟩ 1
          ⟨"auto", 2, 40, true, .dataframe, 1⟩ ⟨3, true⟩ :=
  probe_records_any_order (fun s hs x => sumDecomposition.mapStep_eq s hs _ x) _ ⟨"auto", 2, 40, true, .dataframe, 1⟩
    ⟨3, true⟩ (by decide) 1

end Probe

/-! ## Running a probing plan again -/

section Rerun

variable {α : Type} {R : Runner α} {op : AggOp} {objs : List String} {xs : Nat → α}

/-- Every element of a traversal that succeeds succeeds. -/
theorem ok_of_mapM_ok {β γ ε : Type} {f : β → Except ε γ} :
    ∀ {l : List β} {bs : List γ}, l.mapM f = .ok bs → ∀ a ∈ l, ∃ b, f a = .ok b
  | [], _, _, a, ha => absurd ha (List.not_mem_nil a)
  | a :: l, bs, h, a', ha' => by
    rw [List.mapM_cons] at h
    obtain ⟨b, hfa, h⟩ := Except.bind_eq_ok.mp h
    obtain ⟨bs', hl, -⟩ := Except.bind_eq_ok.mp h
    rcases List.mem_cons.mp ha' with rfl | ha'
    · exact ⟨b, hfa⟩
    · exact ok_of_mapM_ok hl a' ha'

/-- A map operand whose size recorder is gone fails, whatever its inputs hold. -/
theorem operate_map_recorder_gone {name : String} (hgone : name ∉ objs) (hs : List (Held α)) (h : Held α) :
    R.operate op objs (.groupByAgg .map (some name)) hs ≠ .ok h := by
  intro hop
  rcases hs with _ | ⟨_ | _ | _ | _ | _ | _, _ | ⟨_, _⟩⟩ <;> try cases hop
  rename_i x
  change (Held.tuple <$> executeMap R.impl objs (op.at .map (some name)) x).mapError RunError.exec = .ok h at hop
  cases he : executeMap R.impl objs (op.at .map (some name)) x with
  | error e => rw [he] at hop; cases hop
  | ok t => exact executeMap_recorder_gone R.impl rfl hgone x t he

/-- A chunk that reaches a map operand whose size recorder is gone never runs: a node runs only when all its inputs
do. -/
theorem run_ne_ok_of_recorder_gone {name : String} (hgone : name ∉ objs) :
    ∀ (c : Chunk), Operand.groupByAgg .map (some name) ∈ c.operands → ∀ h, c.run R op objs xs ≠ .ok h
  | .source _ _, ho, _ => by simp at ho
  | .node o idx ins, ho, h => by
    rw [Chunk.run_node]
    intro hrun
    obtain ⟨hs, hins, hop⟩ := Except.bind_eq_ok.mp hrun
    rw [Chunk.operands_node, List.mem_cons, List.mem_flatMap] at ho
    rcases ho with rfl | ⟨d, hd, hod⟩
    · exact operate_map_recorder_gone hgone hs h hop
    · obtain ⟨hd', hrund⟩ := ok_of_mapM_ok hins d hd
      exact run_ne_ok_of_recorder_gone hgone d hod hd' hrund
termination_by c => sizeOf c
decreasing_by
  simp_wf
  have := List.sizeOf_lt_of_mem hd
  omega

/-- **A probing plan cannot run again**: every output chunk of an auto tiling that probes fails when it is run in
the remote objects the tiling leaves, for every runtime, every steps and every data: it reaches a probe chunk, whose
`_execute_map` looks up the size recorder `_tile_auto` destroyed. -/
theorem probe_plan_rerun_fails {rt : Runtime} {fuel : Nat} {pop : DataFrameGroupByAgg} {inDf : InputTileable}
    {out : Tileable} {objs' : List String} (hm : pop.method = "auto") (hc : 0 < pop.combineSize)
    (hn : pop.combineSize < inDf.nChunks) (h : tile rt fuel pop inDf = .ok (out, objs')) (R : Runner α)
    (op : AggOp) (xs : Nat → α) : ∀ c ∈ out.chunks, ∀ hd, c.run R op objs' xs ≠ .ok hd := by
  obtain ⟨fin, hplan, hbuild⟩ := tile_ok h
  rw [tilePlan_auto hm hn] at hplan
  obtain ⟨hb, rfl⟩ := tileAuto_ok hplan
  obtain ⟨e, s, x, -, hs, -, -, rfl⟩ := buildTreeAndShuffleChunks_ok hb
  obtain ⟨p, hp, hop⟩ := recorder_mem_probe hc (by omega : 0 < inDf.nChunks) rt.recorderName
  obtain ⟨a, ha, hoa⟩ := reaches_treeLoop hc.le hs p (List.mem_append_left _ hp) _ hop
  have hgone : rt.recorderName ∉
      destroyRemoteObject (createRemoteObject rt.remoteObjects rt.recorderName) rt.recorderName := by
    simp [destroyRemoteObject]
  exact fun c hc' => run_ne_ok_of_recorder_gone hgone c
    (mem_operands_build hbuild (by split_ifs <;> exact ha) hoa c hc')

set_option maxRecDepth 2000 in
theorem probe_plan_rerun_fails_three_chunks :
    ∃ out objs, tile ⟨[], "r", [3, 3]⟩ 1 ⟨"auto", 2, 40, true, .dataframe, 1⟩ ⟨3, true⟩ = .ok (out, objs) ∧
      ∀ c ∈ out.chunks, ∀ hd, c.run sumRunner sumAggOp objs (fun i => (i : ℚ)) ≠ .ok hd := by
  obtain ⟨p, hp⟩ : ∃ p, tile ⟨[], "r", [3, 3]⟩ 1 ⟨"auto", 2, 40, true, .dataframe, 1⟩ ⟨3, true⟩ = .ok p := by
    rw [tile_eq (tilePlan_auto_three (e := 3) (meanSize_eq (by decide) (by decide)) (by decide) (by decide)),
      if_pos (by decide)]
    exact ⟨_, rfl⟩
  exact ⟨p.1, p.2, hp, probe_plan_rerun_fails rfl (by decide) (by decide) hp sumRunner sumAggOp _⟩

end Rerun

end GroupByAgg
