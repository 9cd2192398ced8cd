import GroupByAgg.PyFloat
import GroupByAgg.Plan
import GroupByAgg.Eval
import GroupByAgg.Tree
import GroupByAgg.Shuffle
import GroupByAgg.Tile
import GroupByAgg.Correct
import GroupByAgg.Execute
import GroupByAgg.Auto
import GroupByAgg.Columns
import GroupByAgg.Sum
import GroupByAgg.Run
import GroupByAgg.Probe
