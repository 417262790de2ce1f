import Wsic.Http.RequestLine

/-!
# The grammar of request lines

Which lines `http_parseRequestLine` of `src/http/http.c` accepts, on any message. The comment
over its checks asks for `[0-9]\.[0-9]` behind `HTTP/`; the upper bound of the third character
is checked on the first one, so that every larger character passes as long as it is not
negative as a `char`.
-/

open CMemory

namespace Wsic.HttpT

variable [FreshBytes]

section Splits

variable {http : HttpT} {line method target version : List UInt8}

end Splits

/-! ### What the checks let through -/

end Wsic.HttpT
