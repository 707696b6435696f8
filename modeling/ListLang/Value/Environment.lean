import ListLang.Value.Basic

/-!
# Environments

An environment binds names to values. Extending one gives a new environment and leaves
the old one as it was; of two bindings of a name the later one counts.
-/

namespace ListLang

/-- Bindings of names to values, the latest first. -/
structure Environment where
  bindings : List (String × Value)
  deriving DecidableEq, Repr, Inhabited

namespace Environment

/-- The environment without bindings. -/
def empty : Environment := ⟨[]⟩

/-- Binds `name` to `value`. -/
def extend (env : Environment) (name : String) (value : Value) : Environment :=
  ⟨(name, value) :: env.bindings⟩

/-- The value bound to `name`. -/
def lookup (env : Environment) (name : String) : Option Value := env.bindings.lookup name

@[simp] theorem lookup_empty (name : String) : empty.lookup name = none := rfl

theorem lookup_extend (env : Environment) (name other : String) (v : Value) :
    (env.extend name v).lookup other = if other = name then some v else env.lookup other := by
  simp only [lookup, extend, List.lookup_cons]
  split <;> simp_all

theorem mem_of_lookup {env : Environment} {name : String} {v : Value}
    (found : env.lookup name = some v) : (name, v) ∈ env.bindings := by
  obtain ⟨before, after, eq, -⟩ := List.lookup_eq_some_iff.mp found
  simp [eq]

/-- Whether `name` is bound. -/
def contains (env : Environment) (name : String) : Bool := (env.lookup name).isSome

/-- The environment that programs start in, which binds each builtin to its name. -/
def initial : Environment :=
  Builtin.all.foldl (fun env b => env.extend b.name (.builtin b)) empty

/-- Puts a name into its place in an ascending list of names, unless it is there. -/
def insertName (name : String) : List String → List String
  | [] => [name]
  | other :: rest =>
    if name < other then name :: other :: rest
    else if name = other then other :: rest
    else other :: insertName name rest

/-- The bound names, ascending by their characters and each one once. -/
def names (env : Environment) : List String :=
  env.bindings.foldr (fun binding names => insertName binding.1 names) []

/-- The number of bound names. -/
def size (env : Environment) : Nat := env.names.length

/-- Whether no name is bound. -/
def isEmpty (env : Environment) : Bool := env.bindings.isEmpty

end Environment

end ListLang
