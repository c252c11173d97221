import Fleet.Account
import Fleet.Application
import Fleet.CancelToken
import Fleet.Collaborator
import Fleet.CommandLine.Arguments
import Fleet.CommandLine.Commands
import Fleet.CommandLine.Invocation
import Fleet.Compose
import Fleet.ComposeFile
import Fleet.ComposeFile.Reader
import Fleet.ComposeFile.Text
import Fleet.Container
import Fleet.Dependency.Behaviour
import Fleet.Dependency.Descriptor
import Fleet.Dependency.Kind
import Fleet.Deploy.Context
import Fleet.Deploy.ImageJob
import Fleet.Deploy.Pipeline
import Fleet.Deploy.Publish
import Fleet.Dialogue
import Fleet.Digest
import Fleet.Drift
import Fleet.Endpoint
import Fleet.Environment
import Fleet.Fault
import Fleet.Infrastructure
import Fleet.Json.Reader
import Fleet.Json.Value
import Fleet.LineDiff.Script
import Fleet.LineDiff.Search
import Fleet.LineDiff.Tidy
import Fleet.LineDiff.Unified
import Fleet.Local.Stack
import Fleet.Local.TestRun
import Fleet.Machine.Execution
import Fleet.Machine.FileTree
import Fleet.Machine.Memory
import Fleet.Machine.Request
import Fleet.Main
import Fleet.Manifest.Reader
import Fleet.Manifest.Record
import Fleet.Mode
import Fleet.Naming
import Fleet.Number.Binary64
import Fleet.Number.Decimal
import Fleet.Path
import Fleet.Project
import Fleet.Proofs.Action
import Fleet.Proofs.CancelToken
import Fleet.Proofs.CommandLine.Network
import Fleet.Proofs.Compose.Graph
import Fleet.Proofs.Compose.Grouping
import Fleet.Proofs.Compose.Namesakes
import Fleet.Proofs.Compose.Startable
import Fleet.Proofs.Compose.Storing
import Fleet.Proofs.Compose.Volumes
import Fleet.Proofs.ComposeFile
import Fleet.Proofs.Composition
import Fleet.Proofs.Deploy.Approval
import Fleet.Proofs.Deploy.Completion
import Fleet.Proofs.Deploy.Faults
import Fleet.Proofs.Deploy.Findings
import Fleet.Proofs.Deploy.FlagList
import Fleet.Proofs.Deploy.Flags
import Fleet.Proofs.Deploy.Hcl
import Fleet.Proofs.Deploy.History
import Fleet.Proofs.Deploy.Modules
import Fleet.Proofs.Deploy.Overriding
import Fleet.Proofs.Deploy.Pipeline
import Fleet.Proofs.Deploy.Provision
import Fleet.Proofs.Deploy.References
import Fleet.Proofs.Deploy.Refusal
import Fleet.Proofs.Deploy.Rendering
import Fleet.Proofs.Deploy.Requirement
import Fleet.Proofs.Deploy.Secrecy
import Fleet.Proofs.Deploy.Stages
import Fleet.Proofs.Deploy.Trail
import Fleet.Proofs.Drift
import Fleet.Proofs.Endpoint.HostPort
import Fleet.Proofs.Endpoint.Origin
import Fleet.Proofs.Environment
import Fleet.Proofs.Environment.Layers
import Fleet.Proofs.Json
import Fleet.Proofs.LineDiff.Lines
import Fleet.Proofs.LineDiff.Search
import Fleet.Proofs.LineDiff.Tidy
import Fleet.Proofs.LineDiff.Unified
import Fleet.Proofs.Lists
import Fleet.Proofs.Loading
import Fleet.Proofs.Local.BringUp
import Fleet.Proofs.Local.BuildContext
import Fleet.Proofs.Local.Dependencies
import Fleet.Proofs.Local.Network
import Fleet.Proofs.Local.Ownership
import Fleet.Proofs.Local.Settled
import Fleet.Proofs.Local.Stack
import Fleet.Proofs.Local.TestRun
import Fleet.Proofs.Machine.Directories
import Fleet.Proofs.Machine.FileTree
import Fleet.Proofs.Machine.Memory
import Fleet.Proofs.Naming
import Fleet.Proofs.Path
import Fleet.Proofs.Play
import Fleet.Proofs.Project
import Fleet.Proofs.Publish.Course
import Fleet.Proofs.Publish.FirstFault
import Fleet.Proofs.Publish.Jobs
import Fleet.Proofs.Publish.Ledger
import Fleet.Proofs.Publish.Outcome
import Fleet.Proofs.Publish.Reference
import Fleet.Proofs.Publish.Success
import Fleet.Proofs.Routing
import Fleet.Proofs.SortedMap
import Fleet.Proofs.StartOrder.Cycle
import Fleet.Proofs.StartOrder.Order
import Fleet.Proofs.StartOrder.Search
import Fleet.Proofs.Text
import Fleet.Proofs.Tooling.Aws
import Fleet.Proofs.Tooling.Docker
import Fleet.Proofs.Tooling.Holdings
import Fleet.Proofs.Tooling.Provisioning
import Fleet.Proofs.Tooling.Terraform
import Fleet.Proofs.Traversal
import Fleet.Proofs.Yaml.Block
import Fleet.Proofs.Yaml.Decode
import Fleet.Proofs.Yaml.Key
import Fleet.Proofs.Yaml.Node
import Fleet.Proofs.Yaml.Scalar
import Fleet.Proofs.Yaml.Scan
import Fleet.Proofs.Yaml.Style
import Fleet.Proofs.Yaml.Tree
import Fleet.Rehearsal
import Fleet.Routing
import Fleet.Service
import Fleet.Settings
import Fleet.SortedMap
import Fleet.StartOrder
import Fleet.Table
import Fleet.Text.Blank
import Fleet.Text.Decimal
import Fleet.Text.Lines
import Fleet.Text.Octets
import Fleet.Text.Upper
import Fleet.Tooling.Aws
import Fleet.Tooling.Docker
import Fleet.Tooling.Terraform
import Fleet.Tooling.Toolset
import Fleet.Yaml.Chars
import Fleet.Yaml.Decode
import Fleet.Yaml.FromJson
import Fleet.Yaml.Node
import Fleet.Yaml.Plain
import Fleet.Yaml.Scalar
import Fleet.Yaml.Tag
import Fleet.Yaml.Token
import Fleet.Yaml.Writer
