import JarPlan.Main
import JarPlan.Proofs.Bytes.Base64
import JarPlan.Proofs.Text.Trim
import JarPlan.Proofs.OptionToken.Grammar
import JarPlan.Proofs.OptionToken.Reading
import JarPlan.Proofs.OptionToken.Acceptance
import JarPlan.Proofs.OptionToken.RoundTrip
import JarPlan.Proofs.OptionToken.Limits
import JarPlan.Proofs.OptionToken.Lengths
import JarPlan.Proofs.Kapt.Settings
import JarPlan.Proofs.Path.Join
import JarPlan.Proofs.Path.Relative
import JarPlan.Proofs.Path.Location
import JarPlan.Proofs.Path.Written
import JarPlan.Proofs.Sorted.Set
import JarPlan.Proofs.Step.Order
import JarPlan.Proofs.Step.Unprepared
import JarPlan.Proofs.Classpath
import JarPlan.Proofs.Friends.Staging
import JarPlan.Proofs.Plan.Preparation
import JarPlan.Proofs.Plan.Order
import JarPlan.Proofs.Target.Names
import JarPlan.Proofs.Plan.Commas
import JarPlan.Proofs.Friends.Places
import JarPlan.Proofs.Friends.Separators
import JarPlan.Proofs.Plan.FriendPlaces
import JarPlan.Proofs.Plan.Classpaths
import JarPlan.Proofs.Plan.Spellings
import JarPlan.Proofs.Plan.Phases
import JarPlan.Proofs.Kapt.Tokens
import JarPlan.Proofs.Plan.Artifacts
import JarPlan.Proofs.Plan.Obstacles
import JarPlan.Proofs.Plan.Records
import JarPlan.Proofs.Path.Tidy
import JarPlan.Proofs.Friends.Copies
import JarPlan.Proofs.Plan.ExtraClasspath
import JarPlan.Proofs.Target.Identity
import JarPlan.Proofs.Json.Reading
import JarPlan.Proofs.Json.Description
import JarPlan.Proofs.Description.Step
import JarPlan.Proofs.Step.Spelling
import JarPlan.Proofs.Friends.Directories
import JarPlan.Proofs.Path.Apart
import JarPlan.Proofs.Target.Segments
import JarPlan.Proofs.Plan.Ownership
import JarPlan.Proofs.Kapt.Options
import JarPlan.Proofs.Plan.Sources
import JarPlan.Proofs.Plan.UnreadSettings
import JarPlan.Proofs.Plan.Parameters
import JarPlan.Proofs.Plan.PlainClasspath
import JarPlan.Proofs.Path.Matching
import JarPlan.Proofs.Plan.Matching
import JarPlan.Proofs.Friends.Roster
import JarPlan.Proofs.Friends.Argument
import JarPlan.Proofs.OptionToken.Layout
import JarPlan.Proofs.Timings.Lines
import JarPlan.Proofs.Timings.Written
import JarPlan.Proofs.CommandLine.TotalTime
import JarPlan.Proofs.Friends.FreshNames
import JarPlan.Proofs.Description.Load
