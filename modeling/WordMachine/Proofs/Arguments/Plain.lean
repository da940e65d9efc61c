import WordMachine.Arguments.Invocation

/-! # Plain arguments

How command lines are read in which no argument behind the subcommand begins with a dash: the
arguments are the positional ones of the subcommand, in their order. -/

namespace WordMachine

namespace Invocation

end Invocation

end WordMachine
