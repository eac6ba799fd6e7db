import GoSpidermonkey.EventLoop.NoLoss
import GoSpidermonkey.EventLoop.Wakeup
import GoSpidermonkey.EventLoop.TimersPhase
import GoSpidermonkey.Bridge.HostCall
import GoSpidermonkey.Bridge.HostMemory
import GoSpidermonkey.Fs.Rename
import GoSpidermonkey.Fs.Identity
import GoSpidermonkey.Web.FetchPolicy
import GoSpidermonkey.Web.PendingOps
import GoSpidermonkey.Web.Snapshot
import GoSpidermonkey.Web.Blob
import GoSpidermonkey.Web.AesKw
import GoSpidermonkey.Web.KeyTable
import GoSpidermonkey.Nodejs.Conditions
import GoSpidermonkey.Nodejs.Wildcard
import GoSpidermonkey.Nodejs.Scope
import GoSpidermonkey.Nodejs.FdBuffers
import GoSpidermonkey.Nodejs.GuestPath
import GoSpidermonkey.Nodejs.MkdirAll
import GoSpidermonkey.Nodejs.RemoveAll
import GoSpidermonkey.Nodejs.PosixFile
import GoSpidermonkey.Nodejs.SharedFile
import GoSpidermonkey.Nodejs.WorkerExit
import GoSpidermonkey.Nodejs.StreamClose
import GoSpidermonkey.Nodejs.ZlibStream
import GoSpidermonkey.Nodejs.Teardown
import GoSpidermonkey.Nodejs.LoopRef
import GoSpidermonkey.Nodejs.WorkerText
import GoSpidermonkey.Nodejs.StringDecoder
import GoSpidermonkey.Workers.Pairing
import GoSpidermonkey.Workers.WaitUntil
import GoSpidermonkey.Workers.Pool
import GoSpidermonkey.Nodejs.FileUrl
import GoSpidermonkey.Nodejs.CjsMask
import GoSpidermonkey.Nodejs.CjsKeys
import GoSpidermonkey.Nodejs.CjsClosure
import GoSpidermonkey.Nodejs.WriteActor
import GoSpidermonkey.Nodejs.ReqStream
import GoSpidermonkey.Nodejs.HttpPending
import GoSpidermonkey.Web.FetchStream
import GoSpidermonkey.Web.FetchAbort
import GoSpidermonkey.Nodejs.Ticks
import GoSpidermonkey.Nodejs.EventIterator
