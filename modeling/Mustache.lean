import Mustache.Main
import Mustache.Proofs.Render.Restored
import Mustache.Proofs.Token.Coverage
import Mustache.Proofs.Compile.Correct
import Mustache.Proofs.Compile.Sharing
import Mustache.Proofs.Node.Balanced
import Mustache.Proofs.Node.Extent
import Mustache.Proofs.Node.Moved
import Mustache.Proofs.Compile.Moved
import Mustache.Proofs.Compile.Unnested
import Mustache.Proofs.Compile.Lambda
import Mustache.Proofs.Render.Emission
import Mustache.Proofs.Render.Carried
import Mustache.Proofs.Render.Steady
import Mustache.Proofs.Compile.Indent
import Mustache.Proofs.Node.LineDocument
import Mustache.Proofs.Render.Expansion
import Mustache.Proofs.Render.Lines
import Mustache.Proofs.Compile.Lines
import Mustache.Proofs.Compile.CallSites
import Mustache.Proofs.Compile.Marks
import Mustache.Proofs.Node.Relative
import Mustache.Proofs.Render.Follow
import Mustache.Proofs.Compile.Partials
import Mustache.Proofs.Render.Limit
import Mustache.Proofs.Render.Cyclic
import Mustache.Proofs.Compile.Cyclic
import Mustache.Proofs.Escape.Safe
import Mustache.Proofs.Escape.Unescape
import Mustache.Proofs.Token.Respelled
import Mustache.Proofs.Node.Respelled
import Mustache.Proofs.Render.Course
import Mustache.Proofs.Render.Ends
import Mustache.Proofs.Token.Progress
import Mustache.Proofs.Token.LineEnd
import Mustache.Proofs.Node.LineNumber
import Mustache.Proofs.Render.Memberless
import Mustache.Proofs.Render.Sequence
import Mustache.Proofs.Compile.Unknown
import Mustache.Proofs.Compile.Routines
import Mustache.Proofs.Escape.Accepted
import Mustache.Proofs.Settings
import Mustache.Proofs.Render.Failures
import Mustache.Proofs.Render.Tame
