import MemberOrder.Category.Json
import MemberOrder.Json.Reader
import MemberOrder.Main
import MemberOrder.WeightTable.Json
import MemberOrder.Proofs.FallbackPath
import MemberOrder.Proofs.Placement
import MemberOrder.Proofs.Comparison
import MemberOrder.Proofs.FilePriority
import MemberOrder.Proofs.JsonSettings
import MemberOrder.Proofs.ProjectAncestry
import MemberOrder.Proofs.Recovery
import MemberOrder.Proofs.ResolutionLog
import MemberOrder.Proofs.RunFrame
import MemberOrder.Proofs.SettingsFormats
import MemberOrder.Proofs.SettingsLoading
import MemberOrder.Proofs.SettingsRoundTrip
import MemberOrder.Proofs.Inheritance
import MemberOrder.Proofs.OrderExtension
import MemberOrder.Proofs.WeightReports
import MemberOrder.Proofs.FlagsAndFile
import MemberOrder.Proofs.TableTexts
import MemberOrder.Proofs.FreshSettings
import MemberOrder.Proofs.WeightsLog
import MemberOrder.Proofs.CategoryNames
import MemberOrder.Proofs.TableHistory
import MemberOrder.Proofs.UpwardWalk
