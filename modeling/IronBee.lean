import IronBee.CTypes
import IronBee.Filter.Edit
import IronBee.Filter.Context
import IronBee.Filter.Flush
import IronBee.Filter.Stable
import IronBee.Filter.Buffer
import IronBee.Filter.Splice
import IronBee.Filter.Conservation
import IronBee.Filter.Modes
import IronBee.Filter.Run
import IronBee.Filter.Reference
import IronBee.Filter.Refinement
import IronBee.Filter.Process
import IronBee.Filter.Event
import IronBee.Filter.Body
import IronBee.Filter.Ordered
import IronBee.Filter.Holding
import IronBee.Filter.BufferAll
import IronBee.Filter.Streaming
import IronBee.Filter.FlushAll
import IronBee.Filter.ErrorDoc
import IronBee.Filter.Replies
import IronBee.Filter.Online
import IronBee.Rules.CString
import IronBee.Rules.Operator
import IronBee.Rules.Directive
import IronBee.Rules.Modifier
import IronBee.Rules.Lua
import IronBee.Rules.Init
import IronBee.Engine.ManagerLog
