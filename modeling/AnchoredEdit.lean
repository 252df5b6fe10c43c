import AnchoredEdit.Main
import AnchoredEdit.Session
import AnchoredEdit.Proofs.Syntax.WellFormed
import AnchoredEdit.Proofs.Syntax.Path
import AnchoredEdit.Proofs.Transform.Exchange
import AnchoredEdit.Proofs.Transform.Move
import AnchoredEdit.Proofs.Transform.Wrap
import AnchoredEdit.Proofs.Transform.Exact
import AnchoredEdit.Proofs.Transform.Cursor
import AnchoredEdit.Proofs.Transform.MoveRule
import AnchoredEdit.Proofs.Transform.Return
import AnchoredEdit.Proofs.Syntax.Closest
import AnchoredEdit.Proofs.Syntax.Locate
import AnchoredEdit.Proofs.Syntax.Ranking
import AnchoredEdit.Proofs.Syntax.Arena
import AnchoredEdit.Proofs.Serve.Ledger
import AnchoredEdit.Proofs.Transform.Anchors
import AnchoredEdit.Proofs.Transform.Faultless
import AnchoredEdit.Proofs.Transform.Paste
import AnchoredEdit.Proofs.Transform.Spine
import AnchoredEdit.Proofs.Serve.Machine
import AnchoredEdit.Proofs.Serve.Trace
import AnchoredEdit.Proofs.Serve.Settlement
import AnchoredEdit.Proofs.Serve.Attribution
import AnchoredEdit.Proofs.Serve.Account
import AnchoredEdit.Proofs.Serve.Independence
import AnchoredEdit.Proofs.Session.Walk
import AnchoredEdit.Proofs.Json.RoundTrip
import AnchoredEdit.Proofs.Protocol.Request
import AnchoredEdit.Proofs.Protocol.Response
import AnchoredEdit.Proofs.Transform.Splice
import AnchoredEdit.Proofs.Text.InWords
import AnchoredEdit.Proofs.Text.Arithmetic
import AnchoredEdit.Proofs.Syntax.Dump
import AnchoredEdit.Proofs.Transform.Describe
import AnchoredEdit.Proofs.Diff.Search
import AnchoredEdit.Proofs.Diff.Compact
import AnchoredEdit.Proofs.Diff.Groups
import AnchoredEdit.Proofs.Diff.Preview
import AnchoredEdit.Proofs.Yaml.BlockMapping
import AnchoredEdit.Proofs.Json.Layout
import AnchoredEdit.Proofs.Config.Formats
