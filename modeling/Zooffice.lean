import Zooffice.Common.Arguments
import Zooffice.Common.Cache
import Zooffice.Common.CacheCluster
import Zooffice.Common.CacheRuns
import Zooffice.Common.Decimal
import Zooffice.Common.Effect
import Zooffice.Common.Find
import Zooffice.Common.Joined
import Zooffice.Common.LabelledTree
import Zooffice.Common.Like
import Zooffice.Common.Occurrence
import Zooffice.Common.Path
import Zooffice.Common.Pattern
import Zooffice.Common.Rounding
import Zooffice.Common.Run
import Zooffice.Common.Triple
import Zooffice.Common.Table
import Zooffice.Java.Checksum
import Zooffice.Java.Text
import Zooffice.Java.Split
import Zooffice.Java.Number
import Zooffice.Java.Integers
import Zooffice.Java.Throwable
import Zooffice.Java.Properties
import Zooffice.User.Model.User
import Zooffice.User.Model.Repository
import Zooffice.User.Model.Service
import Zooffice.User.Model.Controller
import Zooffice.User.Model.Registration
import Zooffice.User.Model.EditForm
import Zooffice.User.Model.Init
import Zooffice.User.Model.Search
import Zooffice.User.Repository
import Zooffice.User.Service
import Zooffice.User.Init
import Zooffice.User.Merge
import Zooffice.User.Controller
import Zooffice.User.Deletion
import Zooffice.User.Model.ListPage
import Zooffice.User.ListPage
import Zooffice.User.Search
import Zooffice.User.Uncarried
import Zooffice.User.EditForm
import Zooffice.User.Ownership
import Zooffice.User.Roles
import Zooffice.User.BuiltIn
import Zooffice.User.GeneralUsers
import Zooffice.User.Password
import Zooffice.User.References
import Zooffice.User.Stamps
import Zooffice.Security.Model.SecuredUser
import Zooffice.Security.Model.Login
import Zooffice.Security.Model.Session
import Zooffice.Security.Login
import Zooffice.Security.Validation
import Zooffice.Security.Session
import Zooffice.Security.StoredPassword
import Zooffice.Security.UserCache
import Zooffice.Security.Model.Activity
import Zooffice.Security.Pinned
import Zooffice.Security.Recorded
import Zooffice.Security.LocalAccount
import Zooffice.Security.Lifetime
import Zooffice.Security.Registration
import Zooffice.Security.Model.UserCluster
import Zooffice.Security.UserCluster
import Zooffice.Lock.Model.LockTable
import Zooffice.Lock.Model.Decoders
import Zooffice.Lock.Model.LockService
import Zooffice.Lock.Model.Calls
import Zooffice.Lock.Exclusion
import Zooffice.Lock.Judgement
import Zooffice.Lock.Failures
import Zooffice.Lock.Model.Updates
import Zooffice.Lock.Updates
import Zooffice.Lock.Model.Waiting
import Zooffice.Lock.Waiting
import Zooffice.Infra.Model.ClusterConfigurationVerifier
import Zooffice.Infra.Model.DynamicCacheConfig
import Zooffice.Infra.Model.UserMessageSource
import Zooffice.Infra.Model.NetworkUtil
import Zooffice.Infra.Model.LocalAddress
import Zooffice.Infra.Model.Download
import Zooffice.Infra.Model.CUBRIDDatabase
import Zooffice.Infra.ClusterHome
import Zooffice.Infra.Peers
import Zooffice.Infra.Messages
import Zooffice.Infra.Concat
import Zooffice.Sandbox.Model.Normalize
import Zooffice.Sandbox.Model.SecurityManager
import Zooffice.Sandbox.Model.Hosts
import Zooffice.Sandbox.Buffer
import Zooffice.Sandbox.Loops
import Zooffice.Sandbox.Normalize
import Zooffice.Sandbox.Components
import Zooffice.Sandbox.Confinement
import Zooffice.Sandbox.Hosts
import Zooffice.Sandbox.LogMarker
import Zooffice.Sandbox.Spellings
import Zooffice.Archive.Model.Disk
import Zooffice.Archive.Model.Compression
import Zooffice.Archive.Model.Extract
import Zooffice.Archive.Model.ZipFile
import Zooffice.Archive.Disk
import Zooffice.Archive.Extraction
import Zooffice.Archive.Containment
import Zooffice.Archive.Zip
import Zooffice.Archive.RoundTrip
import Zooffice.Archive.Layout
import Zooffice.Archive.Model.Jar
import Zooffice.Archive.JarRoundTrip
import Zooffice.Archive.Repeating
import Zooffice.Archive.Overwriting
import Zooffice.Infra.Model.Home
import Zooffice.Infra.Model.Config
import Zooffice.Infra.LocalAddress
import Zooffice.Infra.Download
import Zooffice.Infra.HomeTemplate
import Zooffice.Infra.Settings
import Zooffice.Infra.Model.Preconditions
import Zooffice.Infra.Preconditions
import Zooffice.Operation.Model.LogMonitor
import Zooffice.Operation.LogMonitor
import Zooffice.Operation.LogSize
import Zooffice.Operation.Model.Announcement
import Zooffice.Operation.Announcement
import Zooffice.Time.Model.DateUtil
import Zooffice.Time.Durations
import Zooffice.Time.TimeZones
import Zooffice.Js.Number
import Zooffice.Js.Text
import Zooffice.Js.Escape
import Zooffice.Js.Replace
import Zooffice.Web.Model.Rampup
import Zooffice.Web.Model.DrawChart
import Zooffice.Web.Model.Utils
import Zooffice.Web.Rampup
import Zooffice.Web.Labels
import Zooffice.Web.Bounds
import Zooffice.Web.Addresses
import Zooffice.Web.AddressSides
import Zooffice.Web.Model.Paging
import Zooffice.Web.Model.MessageArea
import Zooffice.Web.Model.Cookie
import Zooffice.Web.Model.I18n
import Zooffice.Web.Paging
import Zooffice.Web.MessageArea
import Zooffice.Web.Cookies
import Zooffice.Web.Model.AnnouncementPane
import Zooffice.Web.AnnouncementPane
import Zooffice.Web.I18n
