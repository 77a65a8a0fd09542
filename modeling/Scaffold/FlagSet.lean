import Scaffold.Journal
import Scaffold.Table

/-!
A flag set answers for every name whether the flag is on. A table of flags is one: a name
that is not in it is off.
-/

namespace Scaffold

abbrev FlagSet := String → Bool

namespace FlagSet

def none : FlagSet := fun _ => false

def all : FlagSet := fun _ => true

def ofTable (flags : Table Bool) : FlagSet := fun name => (flags.get? name).getD false

/-- Asking a flag set is an event of its own. -/
def lookup (flags : FlagSet) (name : String) : Recorded Bool :=
  ⟨flags name, [.lookup name (flags name)]⟩

@[simp] theorem value_lookup (flags : FlagSet) (name : String) :
    (flags.lookup name).value = flags name := rfl

@[simp] theorem events_lookup (flags : FlagSet) (name : String) :
    (flags.lookup name).events = [.lookup name (flags name)] := rfl

end FlagSet

end Scaffold
