import GroupByAgg.Shuffle

/-!
# Tiling: `tile`, `_tile_auto` and the `agg` entry point

`tile` picks the strategy from `op.method`: `tree` combines the map chunks (`_tile_with_tree`), `shuffle` shuffles
them (`_tile_with_shuffle`), and `auto` combines outright when there are at most `combine_size` input chunks, and
otherwise probes (`_tile_auto`): it creates a size recorder, yields map chunks of `in_df.chunks[:combine_size]`
that name it, reads the sizes they recorded, destroys it, and lets `_build_tree_and_shuffle_chunks` combine under
the ceiling `chunk_store_limit / 4` and choose between the tree's final stage and the shuffle. The mean size and the
ceiling are floats (`PyFloat`), and `combine_size` is a signed int: the slices count a negative one from the end
(`sliceIndex`).

Every path ends in `_build_out_tileable` or `_perform_shuffle` over a chunk list: `tilePlan` returns which, with
that list (`Finish`), and `tile` builds the output tileable from it. The runtime's part in an auto tiling (the remote
objects alive, the name `uuid4` gives, the sizes the probes record) is the argument `Runtime`.

Every chunk list a path hands to its final stage is `Staged`: its values sum to the sum of the inputs, every path in
it is rooted at one map-stage operand, and it is numbered `0 … n-1` in list order (`staged_tilePlan`).
-/

namespace GroupByAgg

/-- How a tiling ends: `_build_out_tileable` over the combined chunks, or `_perform_shuffle` over the aggregated
chunks. -/
inductive Finish
  | tree (combinedChunks : List Chunk)
  | shuffle (aggChunks : List Chunk)

/-- The chunk list a tiling hands to its final stage. -/
def Finish.chunks : Finish → List Chunk
  | .tree cs => cs
  | .shuffle cs => cs

/-- Whether the tiling keeps the tree. -/
def Finish.isTree : Finish → Bool
  | .tree _ => true
  | .shuffle _ => false

/-- The output tileable. -/
def Finish.build (op : DataFrameGroupByAgg) (inDf : InputTileable) : Finish → Except TileError Tileable
  | .tree cs => buildOutTileable op cs
  | .shuffle cs => .ok (performShuffle op inDf cs)

/-! ## The strategies -/

/-- `_combine_tree`: the tree without a ceiling (a pair is never returned without a size). -/
def combineTree (fuel : Nat) (op : DataFrameGroupByAgg) (chunks : List Chunk) : Except TileError Finish :=
  (buildTreeChunks op.combineSize chunks none none fuel).bind fun
    | .chunks cs => .ok (.tree cs)
    | .withSize _ _ => .error .typeError

/-- `_tile_with_tree`. -/
def tileWithTree (fuel : Nat) (op : DataFrameGroupByAgg) (inDf : InputTileable) : Except TileError Finish :=
  combineTree fuel op (genMapChunks op inDf.chunks)

/-- `_tile_with_shuffle`. -/
def tileWithShuffle (op : DataFrameGroupByAgg) (inDf : InputTileable) : Finish :=
  .shuffle (genMapChunks op inDf.chunks)

/-- `sum(sample_agg_sizes) / len(sample_agg_sizes)`, a float. -/
def meanSize (sizes : List Nat) : Except TileError PyFloat :=
  if sizes.isEmpty then .error .zeroDivision else .ok (PyFloat.ofDiv sizes.sum sizes.length)

/-- `combine_chunk_limit = op.chunk_store_limit / 4`, a float. -/
def combineChunkLimit (op : DataFrameGroupByAgg) : PyFloat := PyFloat.ofDiv op.chunkStoreLimit 4

/-- The position a Python slice bound `i` stands for in a sequence of length `n`: counted from the end when `i` is
negative, and clamped to `[0, n]`; `seq[:i]` is `seq.take (sliceIndex n i)` and `seq[i:]` is
`seq.drop (sliceIndex n i)`. -/
def sliceIndex (n : Nat) (i : Int) : Nat := if 0 ≤ i then min i.toNat n else (n + i).toNat

theorem sliceIndex_le (n : Nat) (i : Int) : sliceIndex n i ≤ n := by
  unfold sliceIndex; split <;> omega

theorem sliceIndex_of_nonneg {n : Nat} {i : Int} (h : 0 ≤ i) : (sliceIndex n i : Int) = min i n := by
  unfold sliceIndex; rw [if_pos h]; omega

/-- `combined_chunks, concat_size = ...` and then `concat_size <= combine_chunk_limit`: a bare list of two chunks
unpacks into two chunks, and comparing a chunk with a number raises. -/
def unpackPair : TreeChunks → Except TileError (List Chunk × PyFloat)
  | .withSize cs x => .ok (cs, x)
  | .chunks [_, _] => .error .typeError
  | .chunks cs => .error (.unpack cs.length)

/-- `_build_tree_and_shuffle_chunks`. -/
def buildTreeAndShuffleChunks (fuel : Nat) (op : DataFrameGroupByAgg) (inDf : InputTileable)
    (sampleMapChunks : List Chunk) (sampleAggSizes : List Nat) : Except TileError Finish := do
  let leftChunks := genMapChunks op (inDf.chunks.drop (sliceIndex inDf.nChunks op.combineSize))
  let inputSize ← meanSize sampleAggSizes
  let r ← buildTreeChunks op.combineSize (sampleMapChunks ++ leftChunks) (some inputSize)
    (some (combineChunkLimit op)) fuel
  let (combinedChunks, concatSize) ← unpackPair r
  if concatSize ≤ combineChunkLimit op then .ok (.tree combinedChunks) else .ok (.shuffle combinedChunks)

/-- What the runtime supplies to an auto tiling: the remote objects alive before it, the name `uuid4` gives the
size recorder, and the aggregated sizes the probe chunks record. -/
structure Runtime where
  remoteObjects : List String
  recorderName : String
  aggSizes : List Nat

/-- `ctx.create_remote_object(name, ...)`. -/
def createRemoteObject (objs : List String) (name : String) : List String := name :: objs

/-- `ctx.destroy_remote_object(name)`. -/
def destroyRemoteObject (objs : List String) (name : String) : List String := objs.filter (· ≠ name)

/-- `chunk.op.size_recorder_name = name` on a `DataFrameGroupByAgg` chunk. -/
def setSizeRecorder (name : String) : Chunk → Chunk
  | .node (.groupByAgg s _) idx ins => .node (.groupByAgg s (some name)) idx ins
  | c => c

/-- The probe: map chunks of `in_df.chunks[:combine_size]`, naming the size recorder. -/
def probeChunks (op : DataFrameGroupByAgg) (inDf : InputTileable) (name : String) : List Chunk :=
  (genMapChunks op (inDf.chunks.take (sliceIndex inDf.nChunks op.combineSize))).map (setSizeRecorder name)

/-- `_tile_auto`, with the remote objects after it. -/
def tileAuto (rt : Runtime) (fuel : Nat) (op : DataFrameGroupByAgg) (inDf : InputTileable) :
    Except TileError (Finish × List String) :=
  let objs := createRemoteObject rt.remoteObjects rt.recorderName
  let chunks := probeChunks op inDf rt.recorderName
  -- `yield chunks`: the runtime runs the probe, which records `rt.aggSizes`
  let objs := destroyRemoteObject objs rt.recorderName
  (buildTreeAndShuffleChunks fuel op inDf chunks rt.aggSizes).map (·, objs)

/-- `tile`, up to the final stage, with the remote objects after it. -/
def tilePlan (rt : Runtime) (fuel : Nat) (op : DataFrameGroupByAgg) (inDf : InputTileable) :
    Except TileError (Finish × List String) :=
  if op.method = "auto" then
    if inDf.chunks.length ≤ op.combineSize then (tileWithTree fuel op inDf).map (·, rt.remoteObjects)
    else tileAuto rt fuel op inDf
  else if op.method = "shuffle" then .ok (tileWithShuffle op inDf, rt.remoteObjects)
  else if op.method = "tree" then (tileWithTree fuel op inDf).map (·, rt.remoteObjects)
  else .error .notImplemented

/-- `tile`: the output tileable, with the remote objects after it. -/
def tile (rt : Runtime) (fuel : Nat) (op : DataFrameGroupByAgg) (inDf : InputTileable) :
    Except TileError (Tileable × List String) :=
  (tilePlan rt fuel op inDf).bind fun (fin, objs) => (fin.build op inDf).map (·, objs)

/-! ## What each step returns -/

theorem unpackPair_ok {r : TreeChunks} {cs : List Chunk} {x : PyFloat} (h : unpackPair r = .ok (cs, x)) :
    r = .withSize cs x := by
  match r, h with
  | .withSize _ _, h => cases h; rfl
  | .chunks [_, _], h => cases h
  | .chunks [], h => cases h
  | .chunks [_], h => cases h
  | .chunks (_ :: _ :: _ :: _), h => cases h

theorem ofState_withSize {s : TreeState} {cs : List Chunk} {x : PyFloat} (h : TreeChunks.ofState s = .withSize cs x) :
    cs = s.chunks ∧ s.concatChunkSize = some x ∧ x ≠ 0 := by
  unfold TreeChunks.ofState at h
  split at h
  · split at h
    · cases h; exact ⟨rfl, ‹_›, ‹_›⟩
    · cases h
  · cases h

/-- **What `_build_tree_and_shuffle_chunks` does**: it takes the mean `e` of the recorded sizes, runs the loop from
the probe and the other map chunks under the ceiling, gets a pair back (a truthy size `x`), and ends in the tree's
final stage when `x` is within the ceiling and in the shuffle otherwise. -/
theorem buildTreeAndShuffleChunks_ok {fuel : Nat} {op : DataFrameGroupByAgg} {inDf : InputTileable}
    {probe : List Chunk} {sizes : List Nat} {fin : Finish}
    (h : buildTreeAndShuffleChunks fuel op inDf probe sizes = .ok fin) :
    ∃ e s x, meanSize sizes = .ok e ∧ treeLoop op.combineSize (some (combineChunkLimit op)) fuel
      ⟨probe ++ genMapChunks op (inDf.chunks.drop (sliceIndex inDf.nChunks op.combineSize)), some e⟩ = .ok s ∧
      s.concatChunkSize = some x ∧ x ≠ 0 ∧
      fin = if x ≤ combineChunkLimit op then .tree s.chunks else .shuffle s.chunks := by
  simp only [buildTreeAndShuffleChunks, bind, Except.bind_eq_ok] at h
  obtain ⟨e, he, r, hr, ⟨cs, x⟩, hu, h⟩ := h
  simp only [buildTreeChunks, Option.isSome_some, Option.isNone_some, Bool.and_false, Bool.false_eq_true,
      ↓reduceIte, Except.map_eq_ok] at hr
  obtain ⟨s, hs, rfl⟩ := hr
  obtain ⟨rfl, hx, hx0⟩ := ofState_withSize (unpackPair_ok hu)
  refine ⟨e, s, x, he, hs, hx, hx0, ?_⟩
  split_ifs at h ⊢ <;> exact (Except.ok.inj h).symm

theorem tile_ok {rt : Runtime} {fuel : Nat} {op : DataFrameGroupByAgg} {inDf : InputTileable} {out : Tileable}
    {objs : List String} (h : tile rt fuel op inDf = .ok (out, objs)) :
    ∃ fin, tilePlan rt fuel op inDf = .ok (fin, objs) ∧ fin.build op inDf = .ok out := by
  obtain ⟨⟨fin, objs'⟩, hp, h⟩ := Except.bind_eq_ok.mp h
  obtain ⟨out', hb, h⟩ := Except.map_eq_ok.mp h
  obtain ⟨rfl, rfl⟩ := Prod.mk.inj h
  exact ⟨fin, hp, hb⟩

theorem tileWithTree_eq (fuel : Nat) (op : DataFrameGroupByAgg) (inDf : InputTileable) :
    tileWithTree fuel op inDf =
      (treeLoop op.combineSize none fuel ⟨genMapChunks op inDf.chunks, none⟩).map fun s => .tree s.chunks := by
  simp only [tileWithTree, combineTree, buildTreeChunks_none]
  cases treeLoop op.combineSize none fuel ⟨genMapChunks op inDf.chunks, none⟩ <;> rfl

theorem tileWithTree_ok {fuel : Nat} {op : DataFrameGroupByAgg} {inDf : InputTileable} {fin : Finish}
    (h : tileWithTree fuel op inDf = .ok fin) :
    ∃ s, treeLoop op.combineSize none fuel ⟨genMapChunks op inDf.chunks, none⟩ = .ok s ∧ fin = .tree s.chunks := by
  obtain ⟨s, hs, rfl⟩ := Except.map_eq_ok.mp (tileWithTree_eq fuel op inDf ▸ h)
  exact ⟨s, hs, rfl⟩

theorem tileAuto_ok {rt : Runtime} {fuel : Nat} {op : DataFrameGroupByAgg} {inDf : InputTileable} {fin : Finish}
    {objs : List String} (h : tileAuto rt fuel op inDf = .ok (fin, objs)) :
    buildTreeAndShuffleChunks fuel op inDf (probeChunks op inDf rt.recorderName) rt.aggSizes = .ok fin ∧
      objs = destroyRemoteObject (createRemoteObject rt.remoteObjects rt.recorderName) rt.recorderName := by
  obtain ⟨fin', hb, h⟩ := Except.map_eq_ok.mp h
  obtain ⟨rfl, rfl⟩ := Prod.mk.inj h
  exact ⟨hb, rfl⟩

/-! ## The entry point -/

/-- `options.combine_size` and `options.chunk_store_limit`. -/
structure Options where
  combineSize : Int
  chunkStoreLimit : Int

/-- `agg` rejects a method other than the three. -/
inductive AggError
  | methodNotAvailable (method : String)

/-- The operand `agg` builds, given what the groupby and the mock planner decide (`sort`, the output type and
width): `method=None` is `"auto"`, and `combine_size or options.combine_size` replaces `None` and `0` and lets every
other int through, negative ones included. -/
def agg (options : Options) (method : Option String) (combineSize : Option Int) (sort : Bool) (out : OutputType)
    (nColumns : Nat) : Except AggError DataFrameGroupByAgg :=
  let method := method.getD "auto"
  if method ∈ ["shuffle", "tree", "auto"] then
    .ok { method := method
          combineSize := match combineSize with
            | none | some 0 => options.combineSize
            | some k => k
          chunkStoreLimit := options.chunkStoreLimit
          sort := sort
          outputType := out
          nColumns := nColumns }
  else .error (.methodNotAvailable method)

end GroupByAgg
