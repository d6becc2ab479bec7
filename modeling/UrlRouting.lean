import UrlRouting.Main
import UrlRouting.Proofs.Tree.Additions
import UrlRouting.Proofs.Pattern.Compile
import UrlRouting.Proofs.Registration.Bindings
import UrlRouting.Proofs.Dispatch
import UrlRouting.Proofs.Registration.Hosts
import UrlRouting.Proofs.Registration.Head
import UrlRouting.Proofs.Registration.Isolation
import UrlRouting.Proofs.Registration.Sources
import UrlRouting.Proofs.Encoding
import UrlRouting.Proofs.Path.Tidy
import UrlRouting.Proofs.Registration.Alone
import UrlRouting.Proofs.Registration.Faults
import UrlRouting.Proofs.Generator.Written
import UrlRouting.Proofs.Generator.RoundTrip
import UrlRouting.Proofs.Arguments
import UrlRouting.Proofs.Regex.Match
import UrlRouting.Proofs.Regex.Reader
import UrlRouting.Proofs.Host
import UrlRouting.Proofs.Tree.Folding
import UrlRouting.Proofs.Tree.Shape
import UrlRouting.Proofs.Tree.Order
import UrlRouting.Proofs.Tree.Refusals
import UrlRouting.Proofs.Tree.Captures
import UrlRouting.Proofs.Registration.Labels
import UrlRouting.Proofs.Registration.HostVariables
import UrlRouting.Proofs.Tree.HostValues
import UrlRouting.Proofs.Generator.Choice
import UrlRouting.Proofs.Generator.Queries
import UrlRouting.Proofs.Generator.Absolute
import UrlRouting.Proofs.Generator.Current
import UrlRouting.Proofs.Pattern.Template
import UrlRouting.Proofs.Matcher
import UrlRouting.Proofs.Pattern.Printing
import UrlRouting.Proofs.Tree.Slashes
import UrlRouting.Proofs.Encoding.Parts
import UrlRouting.Proofs.Matcher.Calls
import UrlRouting.Proofs.Pattern.Brackets
import UrlRouting.Proofs.Pattern.Spellings
import UrlRouting.Proofs.Generator.ExplicitQuery
import UrlRouting.Proofs.Arguments.OrderedMap
import UrlRouting.Proofs.Registry.Declarations
import UrlRouting.Proofs.Memory
import UrlRouting.Proofs.Path.NormalForm
