import Squiddish.Inflight.Reuse

/-!
# Credentials — answers obtained with an `Authorization` header

`Authorization` is forwarded and is no part of the key, and whether an answer is stored depends on
the answer alone.  A hit may replay an answer obtained with credentials to a client that has others
or none.  It does not when every such answer that is stored either permits shared storage or is
under a key that only clients with the same credentials still ask for.
-/

namespace Squiddish
namespace Inflight

open Lib Cache

variable {ι : Type} {E : Env ι}

end Inflight
end Squiddish
