import UriTemplate.Session
import UriTemplate.Filter
import UriTemplate.Published
import UriTemplate.Syntax.Described
import UriTemplate.Proofs.Percent
import UriTemplate.Proofs.Grammar
import UriTemplate.Proofs.Reading
import UriTemplate.Proofs.Compilation
import UriTemplate.Proofs.Evaluation
import UriTemplate.Proofs.Separation
import UriTemplate.Proofs.OnePass
import UriTemplate.Proofs.UriText
import UriTemplate.Proofs.Rejection
import UriTemplate.Proofs.Concatenation
import UriTemplate.Proofs.Printing
import UriTemplate.Proofs.Queries
import UriTemplate.Proofs.QueryRoundTrip
import UriTemplate.Proofs.Dependence
import UriTemplate.Proofs.Binding
import UriTemplate.Proofs.Shapes
import UriTemplate.Proofs.History
import UriTemplate.Proofs.Boundaries
import UriTemplate.Proofs.Octets
import UriTemplate.Proofs.EncodedOnce
import UriTemplate.Proofs.Unbound
import UriTemplate.Proofs.Membership
import UriTemplate.Proofs.Reencoding
import UriTemplate.Proofs.Scalars
import UriTemplate.Proofs.ShownNames
import UriTemplate.Proofs.Tokens
import UriTemplate.Proofs.Splitting
import UriTemplate.Proofs.Visibility
import UriTemplate.Proofs.Exploding
import UriTemplate.Proofs.Cutting
import UriTemplate.Proofs.Grouping
import UriTemplate.Proofs.Multimaps
import UriTemplate.Proofs.Erasure
import UriTemplate.Proofs.Keywords
import UriTemplate.Proofs.Ahead
