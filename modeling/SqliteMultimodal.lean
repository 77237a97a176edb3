import SqliteMultimodal.Graph.Bulk.Flush
import SqliteMultimodal.Graph.Bulk.Parse
import SqliteMultimodal.Graph.Commit
import SqliteMultimodal.Graph.Components.Strong
import SqliteMultimodal.Graph.Compress.RoundTrip
import SqliteMultimodal.Graph.Cypher.Arithmetic
import SqliteMultimodal.Graph.Cypher.Comparison
import SqliteMultimodal.Graph.Cypher.Create
import SqliteMultimodal.Graph.Cypher.Ends
import SqliteMultimodal.Graph.Cypher.ExpressionMeaning
import SqliteMultimodal.Graph.Cypher.FlatJson
import SqliteMultimodal.Graph.Cypher.IndexScan
import SqliteMultimodal.Graph.Cypher.Operators
import SqliteMultimodal.Graph.Cypher.Printed
import SqliteMultimodal.Graph.Cypher.ResultBlock
import SqliteMultimodal.Graph.Cypher.ResultRows
import SqliteMultimodal.Graph.Cypher.Walks
import SqliteMultimodal.Graph.Cypher.Where
import SqliteMultimodal.Graph.Dijkstra.Exact
import SqliteMultimodal.Graph.Functions
import SqliteMultimodal.Graph.Labels
import SqliteMultimodal.Graph.Merge
import SqliteMultimodal.Graph.PageRank.Conserve
import SqliteMultimodal.Graph.PageRank.Keys
import SqliteMultimodal.Graph.Parallel.Answer
import SqliteMultimodal.Graph.Plans.Books
import SqliteMultimodal.Graph.Plans.Recency
import SqliteMultimodal.Graph.PriorityQueue
import SqliteMultimodal.Graph.Rollback
import SqliteMultimodal.Graph.Schema
import SqliteMultimodal.Graph.Traverse.Agree
import SqliteMultimodal.Graph.Traverse.ShortestPath
import SqliteMultimodal.Graph.VTab.Dangling
import SqliteMultimodal.Graph.VTab.ReadBack
import SqliteMultimodal.Graph.WriteLog
import SqliteMultimodal.Vec.BlobEntries
import SqliteMultimodal.Vec.ChunkScan.Exact
import SqliteMultimodal.Vec.Cursor.Arguments
import SqliteMultimodal.Vec.Cursor.Nearest
import SqliteMultimodal.Vec.Declare.Declared
import SqliteMultimodal.Vec.Distance.Hamming
import SqliteMultimodal.Vec.Distance.Int8
import SqliteMultimodal.Vec.Elements.Each
import SqliteMultimodal.Vec.Elements.Json
import SqliteMultimodal.Vec.Hnsw.Descent
import SqliteMultimodal.Vec.Hnsw.File
import SqliteMultimodal.Vec.Hnsw.Reach
import SqliteMultimodal.Vec.Hnsw.Update
import SqliteMultimodal.Vec.Ivf.Reconnect
import SqliteMultimodal.Vec.Ivf.Reinsert
import SqliteMultimodal.Vec.Ivf.Run
import SqliteMultimodal.Vec.Ivf.Search
import SqliteMultimodal.Vec.KdTree.Balance
import SqliteMultimodal.Vec.KdTree.Exact
import SqliteMultimodal.Vec.KdTree.File
import SqliteMultimodal.Vec.Knn.Agreement
import SqliteMultimodal.Vec.Knn.Shape
import SqliteMultimodal.Vec.Knn.Sound
import SqliteMultimodal.Vec.Knn.Texts
import SqliteMultimodal.Vec.Npy.Backed
import SqliteMultimodal.Vec.Npy.Scan
import SqliteMultimodal.Vec.Plan.BestIndex
import SqliteMultimodal.Vec.Storage.Chunks
import SqliteMultimodal.Vec.Storage.Schema
import SqliteMultimodal.Vec.Storage.Text
import SqliteMultimodal.Vec.Sync.Delete
import SqliteMultimodal.Vec.Sync.Session
