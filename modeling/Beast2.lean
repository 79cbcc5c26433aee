import Beast2.Lib.Loop
import Beast2.Lib.Fields
import Beast2.Lib.Grammar
import Beast2.Lib.Choices
import Beast2.Lib.LastWriter
import Beast2.Lib.Log
import Beast2.Lib.Trace
import Beast2.Lib.TraceSpec
import Beast2.Lib.Split
import Beast2.Lib.Uri
import Beast2.Lib.Machine
import Beast2.Lib.Mutex
import Beast2.Lib.Window
import Beast2.Lib.Binary64
import Beast2.Lib.Calendar
import Beast2.Format.Impl
import Beast2.Format.Correct
import Beast2.Format.Failure
import Beast2.Endpoint.Text
import Beast2.Logger.Sections
import Beast2.RouteRule.Rules
import Beast2.RouteRule.Pattern
import Beast2.RouteRule.ParamSegment
import Beast2.Server.Worker
import Beast2.Server.Wire
import Beast2.Server.Framing
import Beast2.Server.Isolation
import Beast2.Server.Ending
import Beast2.Jsonrpc.Client
import Beast2.Burl.Numbers
import Beast2.Burl.Url
import Beast2.Burl.Base64
import Beast2.Burl.Base64RoundTrip
import Beast2.Burl.Request
import Beast2.Burl.Cookie
import Beast2.Burl.CookieDomain
import Beast2.Burl.CookiePath
import Beast2.Burl.Netscape
import Beast2.Burl.CookieJar
import Beast2.Burl.CookieFile
import Beast2.Burl.CookieKeys
import Beast2.Burl.CookieField
import Beast2.Burl.CookieOrder
import Beast2.Burl.QuotedString
import Beast2.Burl.ContentDisposition
import Beast2.Burl.FormData
import Beast2.Burl.Perform
import Beast2.Burl.Credentials
import Beast2.Burl.SetCookies
import Beast2.Burl.Dates
import Beast2.Burl.Referer
import Beast2.Burl.Hops
import Beast2.Burl.Origins
import Beast2.Burl.UserChoices
import Beast2.Burl.HeaderOptions
import Beast2.Burl.Retry
import Beast2.Burl.AsyncRequest
import Beast2.Burl.AnyStream
import Beast2.Burl.LimitRate
import Beast2.Burl.Expect100
import Beast2.Burl.Interim
import Beast2.Burl.Socks
import Beast2.Burl.SocksStep
import Beast2.Burl.SocksMessages
import Beast2.Burl.ConnectTo
import Beast2.Burl.Resolve
import Beast2.Burl.Connect
import Beast2.Burl.ConnectOrder
import Beast2.Burl.RequestStreams
import Beast2.Burl.Glob
import Beast2.Burl.GlobProduct
import Beast2.Burl.GlobPattern
import Beast2.Burl.GlobRanges
import Beast2.Burl.GlobTotal
import Beast2.Burl.RequestOpts
import Beast2.Burl.Output
import Beast2.Burl.OutputFiles
import Beast2.Burl.RetriedOutput
import Beast2.Burl.TaskGroup
import Beast2.Burl.TaskGroupWake
import Beast2.Burl.TaskGroupSlots
import Beast2.Burl.TaskGroupKept
import Beast2.Burl.CoMain
import Beast2.Burl.CoMainRuns
import Beast2.Burl.CoMainEnds
import Beast2.Burl.CoMainFinite
import Beast2.Burl.CoMainStatus
import Beast2.Burl.SharedJar
import Beast2.Burl.SharedCookies
import Beast2.Burl.SharedStore
import Beast2.Burl.RedirectChain
import Beast2.Burl.CommandLine
import Beast2.Burl.ProgressMeter
import Beast2.Get.Session
import Beast2.Get.Visits
