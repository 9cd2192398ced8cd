import GroupByAgg.Tree

/-!
# Map chunks and the sample-sort shuffle: `_gen_map_chunks` to `_perform_shuffle`

`_gen_map_chunks` puts a map-stage operand over every input chunk. `_perform_shuffle` redistributes a list of `n`
aggregated chunks: with `sort` and more than one input chunk, through sampling (`_sample_chunks`), a pivot chunk
(`_gen_pivot_chunk`), a sort-shuffle map operand per chunk (`partition_local_data`) and one sort-shuffle reducer per
map chunk (`partition_merge_data`); otherwise through hash-shuffle map operands and one reducer per grid position
`(i, 0)` (`_gen_shuffle_chunks`). An agg-stage operand then finalizes each reducer's bucket.

* the shuffle keeps the sum of the values (`value_performShuffle`), finalizes every path (`finalizedAll_performShuffle`)
  and reaches every operand of its input (`reaches_performShuffle`);
* when the aggregated chunks are numbered `0 … n-1` in list order (`Numbered`), output chunk `i` sits at grid
  position `i` over the reducer of bucket `(i, 0)` (`performShuffle_layout`);
* the shuffle adds only its own operands (`forall_operands_performShuffle`), so the counts the plan declares
  (`declaredCounts`) are all `n`, except the `shuffle_size` of the sort-shuffle map operands, which is the number of
  input chunks (`declaredCounts_performShuffle`).
-/

namespace GroupByAgg

/-! ## Map chunks -/

/-- The index `_gen_map_chunks` gives the map chunk of an input chunk at `index`. -/
def mapIndex (out : OutputType) (index : Index) : Index :=
  let newIndex := if index.length = 2 then index else index.take 1
  match out with
  | .dataframe => if newIndex.length = 1 then newIndex ++ [0] else newIndex
  | .series => if newIndex.length = 2 then newIndex.take 1 else newIndex

/-- `_gen_map_chunks`: a map-stage `DataFrameGroupByAgg` over every input chunk. -/
def genMapChunks (op : DataFrameGroupByAgg) (inChunks : List Chunk) : List Chunk :=
  inChunks.map fun c => .node (.groupByAgg .map none) (mapIndex op.outputType c.index) [c]

theorem genMapChunks_append (op : DataFrameGroupByAgg) (as bs : List Chunk) :
    genMapChunks op (as ++ bs) = genMapChunks op as ++ genMapChunks op bs := List.map_append _ _ _

@[simp] theorem length_genMapChunks (op : DataFrameGroupByAgg) (cs : List Chunk) :
    (genMapChunks op cs).length = cs.length := List.length_map _ _

theorem mapRooted_genMapChunks (op : DataFrameGroupByAgg) (d : InputTileable) :
    ∀ c ∈ genMapChunks op d.chunks, c.MapRooted := by
  simp only [genMapChunks, InputTileable.chunks, List.map_map, List.mem_map, List.mem_range]
  rintro _ ⟨i, -, rfl⟩
  exact Chunk.mapRooted_map _ _ _ rfl

/-- Map chunk `i` is worth input chunk `i`. -/
theorem value_genMapChunks {M : Type} [AddCommMonoid M] (sp : Splitter M) (v : Nat → M) (op : DataFrameGroupByAgg)
    (d : InputTileable) : (genMapChunks op d.chunks).map (Chunk.value sp v) = (List.range d.nChunks).map v := by
  simp [genMapChunks, InputTileable.chunks, Chunk.value, Function.comp_def]

/-! ## The shuffle -/

/-- `_sample_chunks`: a sampling operand over each aggregated chunk, at `(i, 0)` (a Series' at `(i,)`). -/
def sampleChunks (op : DataFrameGroupByAgg) (aggChunks : List Chunk) : List Chunk :=
  aggChunks.enum.map fun (i, c) => .node (.psrsSample aggChunks.length) (op.outputType.gridIndex i) [c]

/-- `_gen_pivot_chunk`: one operand gathering the samples and choosing the pivots. -/
def genPivotChunk (sampleChunks : List Chunk) (aggChunkLen : Nat) : Chunk :=
  .node (.concatPivot aggChunkLen) [] sampleChunks

/-- `partition_local_data`: a sort-shuffle map operand over each chunk and the pivots, with
`shuffle_size = in_df.chunk_shape[0]` and `n_partition = len(sorted_chunks)`. -/
def partitionLocalData (sortedChunks : List Chunk) (concatPivotChunk : Chunk) (inDf : InputTileable) :
    List Chunk :=
  sortedChunks.map fun c => .node (.sortShuffleMap inDf.nChunks sortedChunks.length) c.index [c, concatPivotChunk]

/-- `DataFrameShuffleProxy` over the map chunks. -/
def proxyChunk (mapChunks : List Chunk) : Chunk := .node .shuffleProxy [] mapChunks

/-- `partition_merge_data`: the reducer of bucket `(i, 0)` for map chunk `i`, at that chunk's index. -/
def partitionMergeData (partitionChunks : List Chunk) (proxyChunk : Chunk) : List Chunk :=
  partitionChunks.enum.map fun (i, c) =>
    .node (.sortShuffleReduce [i, 0] partitionChunks.length) c.index [proxyChunk]

/-- `_gen_shuffle_chunks_with_pivot`. -/
def genShuffleChunksWithPivot (inDf : InputTileable) (chunks : List Chunk) (pivot : Chunk) : List Chunk :=
  let mapChunks := partitionLocalData chunks pivot inDf
  partitionMergeData mapChunks (proxyChunk mapChunks)

/-- Modelled from the spec: the shuffle operands' base class is not in the sources; a reducer created without a
`reducer_index` reads the bucket of its chunk's index, one reducer per bucket index. -/
def newReducerIndex (index : Index) : Index := index

/-- `_gen_shuffle_chunks`: a hash-shuffle map operand over each chunk with `shuffle_size = len(chunks)`, and a
reducer at each of the `out_indices` `(i, 0)`. -/
def genShuffleChunks (chunks : List Chunk) : List Chunk :=
  let mapChunks := chunks.map fun c => .node (.groupByMap chunks.length) c.index [c]
  let outIndices := (List.range chunks.length).map fun i => [i, 0]
  outIndices.map fun outIdx =>
    .node (.groupByReduce (newReducerIndex outIdx) outIndices.length) outIdx [proxyChunk mapChunks]

/-- The index of the agg chunk over a reducer at `index`: `chunk.index`, or `(chunk.index[0],)` for a Series. -/
def aggIndex : OutputType → Index → Index
  | .dataframe, index => index
  | .series, index => index.take 1

/-- The reducers `_perform_shuffle` builds. -/
def reduceChunks (op : DataFrameGroupByAgg) (inDf : InputTileable) (aggChunks : List Chunk) : List Chunk :=
  if op.sort && 1 < inDf.chunks.length then
    genShuffleChunksWithPivot inDf aggChunks (genPivotChunk (sampleChunks op aggChunks) aggChunks.length)
  else genShuffleChunks aggChunks

/-- `_perform_shuffle`: an agg-stage operand over every reducer. -/
def performShuffle (op : DataFrameGroupByAgg) (inDf : InputTileable) (aggChunks : List Chunk) : Tileable :=
  let outChunks := (reduceChunks op inDf aggChunks).map fun c =>
    .node (.groupByAgg .agg none) (aggIndex op.outputType c.index) [c]
  ⟨outChunks, op.outputType.nsplits op.nColumns outChunks.length⟩

theorem map_enum_of_fst {α β γ : Type} (l : List α) (f : Nat × α → β) (g : β → γ) (h : Nat → γ)
    (hfg : ∀ p, g (f p) = h p.1) : (l.enum.map f).map g = (List.range l.length).map h := by
  rw [List.map_map, ← List.enum_map_fst, List.map_map]
  exact List.map_congr_left fun p _ => hfg p

/-! ## What the shuffle computes -/

section Value

variable {M : Type} [AddCommMonoid M] (sp : Splitter M) (v : Nat → M)

/-- The parts each aggregated chunk is split into, one per reducer. -/
def shuffleParts (aggChunks : List Chunk) : List (List M) :=
  aggChunks.map fun a => sp.split (a.value sp v) aggChunks.length

theorem value_reducer {op : Operand} {b : Index} (hop : ∃ k, op = .groupByReduce b k ∨ op = .sortShuffleReduce b k)
    (idx : Index) (ms : List Chunk) :
    (Chunk.node op idx [proxyChunk ms]).value sp v =
      ((ms.map fun m => (m.eval sp v).buckets).map (·.getD (b.headD 0) 0)).sum := by
  obtain ⟨k, rfl | rfl⟩ := hop <;> simp [Chunk.value, proxyChunk] <;> rfl

/-- Reducer `b` of either shuffle sums part `b` of every aggregated chunk. -/
theorem values_reduceChunks (op : DataFrameGroupByAgg) (inDf : InputTileable) (as : List Chunk) :
    (reduceChunks op inDf as).map (Chunk.value sp v) =
      (List.range as.length).map fun b => ((shuffleParts sp v as).map (·.getD b 0)).sum := by
  unfold reduceChunks
  split
  · have hparts : (partitionLocalData as (genPivotChunk (sampleChunks op as) as.length) inDf).map
        (fun m => (m.eval sp v).buckets) = shuffleParts sp v as := by
      simp [partitionLocalData, shuffleParts, genPivotChunk, Chunk.value, Function.comp_def]
    simp only [genShuffleChunksWithPivot, partitionMergeData]
    rw [map_enum_of_fst _ _ _ fun b => ((shuffleParts sp v as).map (·.getD b 0)).sum]
    · simp [partitionLocalData]
    · intro p
      rw [value_reducer sp v ⟨_, .inr rfl⟩, hparts]
      rfl
  · have hparts : (as.map fun c => Chunk.node (.groupByMap as.length) c.index [c]).map
        (fun m => (m.eval sp v).buckets) = shuffleParts sp v as := by
      simp [shuffleParts, Chunk.value, Function.comp_def]
    simp only [genShuffleChunks, List.map_map, Function.comp_def, newReducerIndex,
      value_reducer sp v ⟨_, .inl rfl⟩, hparts]
    rfl

theorem value_aggNode (idx : Index) (r : Chunk) : (Chunk.node (.groupByAgg .agg none) idx [r]).value sp v = r.value sp v := by
  simp [Chunk.value_node_sum _ _ ⟨.agg, none, .inl rfl⟩]

/-- **The shuffle keeps the sum**: its output chunks sum to what the aggregated chunks sum to. -/
theorem value_performShuffle (op : DataFrameGroupByAgg) (inDf : InputTileable) (as : List Chunk) :
    ((performShuffle op inDf as).chunks.map (Chunk.value sp v)).sum = (as.map (Chunk.value sp v)).sum := by
  have houts : (performShuffle op inDf as).chunks.map (Chunk.value sp v) =
      (reduceChunks op inDf as).map (Chunk.value sp v) := by
    simp [performShuffle, Function.comp_def, value_aggNode]
  rw [houts, values_reduceChunks, sum_buckets as.length _ (by simp [shuffleParts, sp.length_split])]
  simp only [shuffleParts, List.map_map, Function.comp_def]
  congr 1
  exact List.map_congr_left fun a ha => sp.sum_split _ _ (List.length_pos_of_mem ha)

/-- The outputs of a shuffle of the map chunks: output `b` sums part `b` of every input chunk. -/
theorem values_performShuffle_genMapChunks (op : DataFrameGroupByAgg) (inDf : InputTileable) :
    (performShuffle op inDf (genMapChunks op inDf.chunks)).chunks.map (Chunk.value sp v) =
      (List.range inDf.nChunks).map fun b =>
        ((List.range inDf.nChunks).map fun i => (sp.split (v i) inDf.nChunks).getD b 0).sum := by
  have houts : (performShuffle op inDf (genMapChunks op inDf.chunks)).chunks.map (Chunk.value sp v) =
      (reduceChunks op inDf (genMapChunks op inDf.chunks)).map (Chunk.value sp v) := by
    simp [performShuffle, Function.comp_def, value_aggNode]
  have hparts : shuffleParts sp v (genMapChunks op inDf.chunks) =
      (List.range inDf.nChunks).map fun i => sp.split (v i) inDf.nChunks := by
    simpa [shuffleParts, List.map_map, Function.comp_def] using
      congrArg (List.map fun m => sp.split m inDf.nChunks) (value_genMapChunks sp v op inDf)
  rw [houts, values_reduceChunks, hparts, length_genMapChunks, InputTileable.length_chunks]
  simp [List.map_map, Function.comp_def]

end Value

/-! ## Paths and reach -/

section Paths

variable {op : DataFrameGroupByAgg} {inDf : InputTileable} {as : List Chunk}

theorem mapRooted_reduceChunks (h : ∀ a ∈ as, a.MapRooted) : ∀ r ∈ reduceChunks op inDf as, r.MapRooted := by
  unfold reduceChunks
  split
  · simp only [genShuffleChunksWithPivot, partitionMergeData, partitionLocalData, proxyChunk, genPivotChunk,
      sampleChunks, List.forall_mem_map, List.forall_mem_cons, List.not_mem_nil, false_implies, implies_true, and_true,
      Chunk.mapRooted_node_iff, Operand.aggStage]
    exact fun _ _ a ha => ⟨h a ha, fun q hq => h q.2 (List.snd_mem_of_mem_enum hq)⟩
  · simp only [genShuffleChunks, proxyChunk, List.forall_mem_map, List.forall_mem_singleton, Chunk.mapRooted_node_iff,
      Operand.aggStage]
    exact fun _ _ => h

/-- Every path through the shuffle passes one map-stage operand, combine-stage ones and one agg-stage operand. -/
theorem finalizedAll_performShuffle (h : ∀ a ∈ as, a.MapRooted) :
    ∀ c ∈ (performShuffle op inDf as).chunks, c.FinalizedAll := by
  simp only [performShuffle, List.forall_mem_map]
  exact fun r hr => Chunk.finalizedAll_agg _ _ fun d hd => List.mem_singleton.mp hd ▸ mapRooted_reduceChunks h r hr

/-- Every reducer reaches every operand of every aggregated chunk. -/
theorem operands_reduceChunks {a : Chunk} (ha : a ∈ as) {o : Operand} (ho : o ∈ a.operands) :
    ∀ r ∈ reduceChunks op inDf as, o ∈ r.operands := by
  unfold reduceChunks
  split <;> simp only [genShuffleChunksWithPivot, partitionMergeData, genShuffleChunks, List.forall_mem_map] <;>
    exact fun _ _ => Chunk.mem_operands_node (List.mem_singleton_self _)
      (Chunk.mem_operands_node (List.mem_map_of_mem _ ha) (Chunk.mem_operands_node (List.mem_cons_self _ _) ho))

@[simp] theorem length_reduceChunks : (reduceChunks op inDf as).length = as.length := by
  unfold reduceChunks
  split <;> simp [genShuffleChunksWithPivot, partitionMergeData, partitionLocalData, genShuffleChunks]

theorem reaches_performShuffle (hne : as ≠ []) : Reaches (performShuffle op inDf as).chunks as := by
  intro a ha o ho
  have hlen : 0 < (reduceChunks op inDf as).length := by simp [List.length_pos.mpr hne]
  obtain ⟨r, hr⟩ : ∃ r, r ∈ reduceChunks op inDf as := ⟨_, List.getElem_mem hlen⟩
  exact ⟨_, List.mem_map_of_mem _ hr,
    Chunk.mem_operands_node (List.mem_singleton_self _) (operands_reduceChunks ha ho r hr)⟩

/-- The operands the shuffle adds: a property of these and of every operand of the aggregated chunks holds of every
operand of the output. -/
theorem forall_operands_performShuffle {P : Operand → Prop} (hagg : P (.groupByAgg .agg none))
    (hproxy : P .shuffleProxy)
    (hsort : P (.psrsSample as.length) ∧ P (.concatPivot as.length) ∧ P (.sortShuffleMap inDf.nChunks as.length) ∧
      ∀ i, P (.sortShuffleReduce [i, 0] as.length))
    (hhash : P (.groupByMap as.length) ∧ ∀ i, P (.groupByReduce [i, 0] as.length))
    (has : ∀ a ∈ as, ∀ o ∈ a.operands, P o) :
    ∀ c ∈ (performShuffle op inDf as).chunks, ∀ o ∈ c.operands, P o := by
  simp only [performShuffle, List.forall_mem_map, Chunk.forall_operands_node, List.forall_mem_singleton]
  unfold reduceChunks
  split
  · obtain ⟨hsample, hpivot, hmap, hreduce⟩ := hsort
    simp only [genShuffleChunksWithPivot, partitionMergeData, partitionLocalData, proxyChunk, genPivotChunk,
      sampleChunks, List.forall_mem_map, Chunk.forall_operands_node, List.forall_mem_singleton, List.forall_mem_cons,
      List.length_map]
    exact fun p _ => ⟨hagg, hreduce p.1, hproxy, fun a ha =>
      ⟨hmap, has a ha, hpivot, fun q hq => ⟨hsample, has q.2 (List.snd_mem_of_mem_enum hq)⟩⟩⟩
  · obtain ⟨hmap, hreduce⟩ := hhash
    simp only [genShuffleChunks, newReducerIndex, proxyChunk, List.forall_mem_map, Chunk.forall_operands_node,
      List.forall_mem_singleton, List.length_map, List.length_range]
    exact fun i _ => ⟨hagg, hreduce i, hproxy, fun a ha => ⟨hmap, has a ha⟩⟩

/-- **The counts the shuffle declares**: over a list whose operands declare none, every count an output chunk
reaches is the number `n` of shuffled chunks, but for the `shuffle_size` of the sort-shuffle map operands, which is
`in_df.chunk_shape[0]`. -/
theorem declaredCounts_performShuffle (hin : ∀ a ∈ as, ∀ o ∈ a.operands, o.InTree) :
    ∀ c ∈ (performShuffle op inDf as).chunks, ∀ o ∈ c.operands, ∀ k ∈ o.declaredCounts,
      k = as.length ∨ o = .sortShuffleMap inDf.nChunks as.length ∧ k = inDf.nChunks := by
  refine forall_operands_performShuffle ?_ ?_ ⟨?_, ?_, ?_, fun _ => ?_⟩ ⟨?_, fun _ => ?_⟩
    fun a ha o ho k hk => by simp [Operand.declaredCounts_of_inTree (hin a ha o ho)] at hk
  all_goals simp [Operand.declaredCounts]

end Paths

/-! ## Layout -/

/-- The chunks are numbered `0 … n-1` in list order: chunk `i` sits at grid position `i` (a Series' first
coordinate is `i`). -/
def Numbered (out : OutputType) (cs : List Chunk) : Prop :=
  ∀ i c, cs[i]? = some c → aggIndex out c.index = out.gridIndex i

/-- Being numbered depends on the indices alone. -/
theorem Numbered.of_map_index {out : OutputType} {cs ds : List Chunk} (h : cs.map Chunk.index = ds.map Chunk.index)
    (hd : Numbered out ds) : Numbered out cs := fun i c hc => by
  have hi := congrArg (·[i]?) h
  simp only [List.getElem?_map, hc, Option.map_some'] at hi
  obtain ⟨d, hdi, hidx⟩ := Option.map_eq_some'.mp hi.symm
  exact hidx ▸ hd i d hdi

@[simp] theorem aggIndex_gridIndex (out : OutputType) (i : Nat) : aggIndex out [i, 0] = out.gridIndex i := by
  cases out <;> rfl

section Layout

variable {op : DataFrameGroupByAgg} {inDf : InputTileable} {as : List Chunk}

/-- Reducer `i` reads bucket `(i, 0)`, and the agg chunk over it sits at grid position `i`. -/
theorem reduceChunks_getElem? (hnum : Numbered op.outputType as) {i : Nat} {r : Chunk}
    (h : (reduceChunks op inDf as)[i]? = some r) :
    r.reducerIndex = some [i, 0] ∧ aggIndex op.outputType r.index = op.outputType.gridIndex i := by
  unfold reduceChunks at h
  split at h
  · simp only [genShuffleChunksWithPivot, partitionMergeData, partitionLocalData, List.getElem?_map,
      List.getElem?_enum, Option.map_map, Function.comp_def, List.length_map, Option.map_eq_some'] at h
    obtain ⟨a, ha, rfl⟩ := h
    exact ⟨rfl, hnum i a ha⟩
  · simp only [genShuffleChunks, List.map_map, Function.comp_def] at h
    obtain ⟨-, rfl⟩ := getElem?_map_range_eq_some h
    exact ⟨rfl, aggIndex_gridIndex _ _⟩

/-- **Layout of the shuffle's output**: `n` chunks, `nsplits` the grid of `n` rows, and output chunk `i` an
agg-stage operand at grid position `i` over the reducer of bucket `(i, 0)`. -/
theorem performShuffle_layout (inDf : InputTileable) (hnum : Numbered op.outputType as) :
    (performShuffle op inDf as).chunks.length = as.length ∧
    (performShuffle op inDf as).nsplits = op.outputType.nsplits op.nColumns as.length ∧
    ∀ i c, (performShuffle op inDf as).chunks[i]? = some c →
      ∃ r, r.reducerIndex = some [i, 0] ∧ c = .node (.groupByAgg .agg none) (op.outputType.gridIndex i) [r] := by
  refine ⟨by simp [performShuffle], by simp [performShuffle], fun i c hc => ?_⟩
  simp only [performShuffle, List.getElem?_map] at hc
  cases hr : (reduceChunks op inDf as)[i]? with
  | none => simp [hr] at hc
  | some r =>
    simp only [hr, Option.map_some', Option.some.injEq] at hc
    obtain ⟨hri, hidx⟩ := reduceChunks_getElem? hnum hr
    exact ⟨r, hri, by rw [← hc, hidx]⟩

/-- With `sort` and more than one input chunk, every output chunk reaches the sort-shuffle map operands, whose
`shuffle_size` is the number of input chunks and whose `n_partition` is the number of aggregated chunks. -/
theorem sortShuffleMap_mem_performShuffle (hs : op.sort = true) (h1 : 1 < inDf.nChunks) (hne : as ≠ []) :
    ∀ c ∈ (performShuffle op inDf as).chunks, .sortShuffleMap inDf.nChunks as.length ∈ c.operands := by
  obtain ⟨a, ha⟩ := List.exists_mem_of_ne_nil as hne
  simp only [performShuffle, reduceChunks, hs, InputTileable.length_chunks, h1, decide_True, Bool.and_self,
    ↓reduceIte, List.mem_map]
  rintro _ ⟨r, hr, rfl⟩
  obtain ⟨⟨i, m⟩, -, rfl⟩ := List.mem_map.mp hr
  refine Chunk.mem_operands_node (List.mem_singleton_self _) (Chunk.mem_operands_node (List.mem_singleton_self _)
    (Chunk.mem_operands_node (List.mem_map_of_mem _ ha) ?_))
  simp [partitionLocalData]

end Layout

end GroupByAgg
