import MyFile.Lua.StringLib
import MyFile.Lua.Capture
import MyFile.Lua.Loop
import MyFile.Lua.Assignment
import MyFile.Lua.Expression
import MyFile.Lua.Numeral
import MyFile.Lua.Literal
import MyFile.Lua.Replace
import MyFile.Lua.Coroutine
import MyFile.Lua.Heap
import MyFile.Lua.Api
import MyFile.Csv.Spec
import MyFile.Csv.Scan
import MyFile.Csv.Fields
import MyFile.Csv.RoundTrip
import MyFile.Csv.Accept
import MyFile.WordCount
import MyFile.Permgen
import MyFile.Markov.Spec
import MyFile.Markov.Training
import MyFile.Markov.Iterator
import MyFile.Markov.Generation
import MyFile.Cmd.Spec
import MyFile.Cmd.Executors
import MyFile.Cmd.Blanks
import MyFile.Cmd.Resolve
import MyFile.Ivr.Spec
import MyFile.Ivr.Entry
import MyFile.Ivr.Parse
import MyFile.Ivr.Menu
import MyFile.Ivr.Refinement
import MyFile.Ivr.Routing
import MyFile.Ivr.Order
import MyFile.Ivr.Trunks
import MyFile.Ivr.Budget
import MyFile.HardwareProxy.Spec
import MyFile.HardwareProxy.Refinement
import MyFile.HardwareProxy.Codec
import MyFile.Save.Spec
import MyFile.Save.Rebuild
import MyFile.Serialize
import MyFile.Escape
import MyFile.Unescape
import MyFile.Pipeline
import MyFile.Sets
import MyFile.Inherit.Spec
import MyFile.Inherit.Lookup
import MyFile.CallVa.Spec
import MyFile.CallVa.Marshal
import MyFile.CallVa.Stack
import MyFile.Contains
import MyFile.Unix.Process
import MyFile.Unix.File
import MyFile.Unix.CString
import MyFile.Linked
import MyFile.Db.Spec
import MyFile.Db.Format
import MyFile.Db.Update
import MyFile.Db.Chains
import MyFile.Db.Steps
import MyFile.Db.Relink
import MyFile.Db.Calls
import MyFile.Db.Run
import MyFile.Db.Scan
import MyFile.Db.Space
import MyFile.Schedule
import MyFile.Shm.Spec
import MyFile.Semaph.Spec
import MyFile.Shm.Transfer
import MyFile.Semaph.Safety
import MyFile.Semaph.Close
import MyFile.Semaph.Units
import MyFile.Semaph.Races
