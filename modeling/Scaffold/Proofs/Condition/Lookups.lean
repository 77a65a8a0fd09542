import Scaffold.Condition.Parser

/-! The flags that are asked for. Whatever asks openly, so that each flag it depends on is in its
journal, takes the same course under all flag sets that agree on the flags it asked for. Deciding
a condition is such a computation, although the value of one flag decides which others are
read. -/

namespace Scaffold

def Event.lookup? : Event → Option (String × Bool)
  | .lookup name value => some (name, value)
  | _ => none

def lookups (events : List Event) : List (String × Bool) := events.filterMap Event.lookup?

@[simp] theorem lookups_append (first second : List Event) :
    lookups (first ++ second) = lookups first ++ lookups second :=
  List.filterMap_append

theorem lookups_map_notice {α : Type} (f : α → Notice) (items : List α) :
    lookups (items.map fun item => .notice (f item)) = [] := by
  rw [lookups, List.filterMap_map, List.filterMap_eq_nil_iff]
  exact fun _ _ => rfl

theorem mem_lookups_iff {events : List Event} {name : String} {value : Bool} :
    (name, value) ∈ lookups events ↔ .lookup name value ∈ events := by
  rw [lookups, List.mem_filterMap]
  constructor
  · rintro ⟨event, member, found⟩
    cases event with
    | lookup =>
      cases found
      exact member
    | _ => exact nomatch found
  · exact fun member => ⟨_, member, rfl⟩

/-- What happens before the first lookup happens before each of them. -/
theorem mem_before_lookup {first second front back : List Event} {name : String} {value : Bool}
    (quiet : lookups first = []) (split : first ++ second = front ++ .lookup name value :: back)
    {event : Event} (member : event ∈ first) : event ∈ front := by
  rcases List.append_eq_append_iff.1 split with ⟨more, rfl, _⟩ | ⟨more, rfl, rest⟩
  · exact List.mem_append_left _ member
  · cases more with
    | nil => rwa [List.append_nil] at member
    | cons found more =>
      cases rest
      rw [lookups_append, List.append_eq_nil_iff] at quiet
      exact nomatch quiet.2

/-- All flags that the computation depends on are in its journal. -/
def AsksOpenly {α : Type} (f : FlagSet → Recorded α) : Prop :=
  ∀ flags other : FlagSet,
    (∀ query ∈ lookups (f flags).events, other query.1 = flags query.1) → f other = f flags

section AsksOpenly

variable {α β : Type}

theorem asksOpenly_const (x : Recorded α) : AsksOpenly fun _ => x := fun _ _ _ => rfl

theorem asksOpenly_lookup (name : String) : AsksOpenly fun flags => flags.lookup name := by
  intro flags other agree
  have same : other name = flags name := agree (name, flags name) List.mem_cons_self
  show Recorded.mk (other name) [.lookup name (other name)] = flags.lookup name
  rw [same]
  rfl

theorem bind_eq_of_value {x : Recorded α} {g h : α → Recorded β} (same : g x.value = h x.value) :
    x >>= g = x >>= h := by
  show Recorded.mk (g x.value).value (x.events ++ (g x.value).events) = x >>= h
  rw [same]
  rfl

/-- What is asked first may decide what is asked next. -/
theorem AsksOpenly.bind {f : FlagSet → Recorded α} {g : α → FlagSet → Recorded β}
    (first : AsksOpenly f) (next : ∀ a, AsksOpenly (g a)) :
    AsksOpenly fun flags => f flags >>= fun a => g a flags := by
  intro flags other agree
  have asked : lookups (f flags >>= fun a => g a flags).events =
      lookups (f flags).events ++ lookups (g (f flags).value flags).events := by
    rw [Recorded.events_bind, lookups_append]
  rw [asked] at agree
  have same : f other = f flags :=
    first flags other fun query member => agree query (List.mem_append_left _ member)
  have behind : g (f flags).value other = g (f flags).value flags :=
    next _ flags other fun query member => agree query (List.mem_append_right _ member)
  calc f other >>= (fun a => g a other)
      = f flags >>= fun a => g a other := by rw [same]
    _ = f flags >>= fun a => g a flags := bind_eq_of_value behind

end AsksOpenly

namespace Condition

theorem asksOpenly_decide (c : Condition) : AsksOpenly fun flags => c.decide flags := by
  induction c with
  | or lhs rhs left right =>
    refine left.bind fun value => ?_
    cases value with
    | true => exact asksOpenly_const (pure true)
    | false => exact right
  | and lhs rhs left right =>
    refine left.bind fun value => ?_
    cases value with
    | true => exact right
    | false => exact asksOpenly_const (pure false)
  | not inner ih => exact ih.bind fun value => asksOpenly_const (pure !value)
  | flag name => exact asksOpenly_lookup name
  | missing => exact asksOpenly_const (pure false)

theorem asksOpenly_evaluate (text : String) : AsksOpenly fun flags => evaluate flags text := by
  refine (asksOpenly_const (read text)).bind fun result => ?_
  match result with
  | .ok c => exact asksOpenly_decide c
  | .error .empty => exact asksOpenly_const (pure false)
  | .error (.trailing token) =>
    exact (asksOpenly_const (note _)).bind fun _ => asksOpenly_lookup (trimmed text)
  | .error .tooDeep =>
    exact (asksOpenly_const (note _)).bind fun _ => asksOpenly_lookup (trimmed text)

/-- Deciding a condition looks up no flags but its own, and each has its value. -/
theorem exists_flag_of_decide {flags : FlagSet} {c : Condition} {query : String × Bool}
    (asked : query ∈ lookups (c.decide flags).events) :
    ∃ name ∈ c.flags, query = (name, flags name) := by
  induction c with
  | or lhs rhs left right =>
    rw [decide, Recorded.events_bind, lookups_append, List.mem_append] at asked
    rcases asked with first | second
    · obtain ⟨name, member, same⟩ := left first
      exact ⟨name, List.mem_append_left _ member, same⟩
    · split at second
      · exact absurd second List.not_mem_nil
      · obtain ⟨name, member, same⟩ := right second
        exact ⟨name, List.mem_append_right _ member, same⟩
  | and lhs rhs left right =>
    rw [decide, Recorded.events_bind, lookups_append, List.mem_append] at asked
    rcases asked with first | second
    · obtain ⟨name, member, same⟩ := left first
      exact ⟨name, List.mem_append_left _ member, same⟩
    · split at second
      · obtain ⟨name, member, same⟩ := right second
        exact ⟨name, List.mem_append_right _ member, same⟩
      · exact absurd second List.not_mem_nil
  | not inner ih =>
    rw [decide, Recorded.events_bind, Recorded.events_pure, List.append_nil] at asked
    exact ih asked
  | flag name => exact ⟨name, List.mem_cons_self, List.mem_singleton.1 asked⟩
  | missing => exact absurd asked List.not_mem_nil

theorem notice_not_mem_decide (flags : FlagSet) (c : Condition) (n : Notice) :
    .notice n ∉ (c.decide flags).events := by
  induction c with
  | or lhs rhs left right =>
    rw [decide, Recorded.events_bind, List.mem_append]
    rintro (first | second)
    · exact left first
    · split at second
      · exact List.not_mem_nil second
      · exact right second
  | and lhs rhs left right =>
    rw [decide, Recorded.events_bind, List.mem_append]
    rintro (first | second)
    · exact left first
    · split at second
      · exact right second
      · exact List.not_mem_nil second
  | not inner ih =>
    rw [decide, Recorded.events_bind, Recorded.events_pure, List.append_nil]
    exact ih
  | flag name =>
    intro member
    cases List.mem_singleton.1 member
  | missing => exact List.not_mem_nil

theorem mem_identifiers_iff (c : Condition) (name : String) :
    name ∈ c.identifiers ↔ name ∈ c.flags :=
  List.mem_eraseDups

theorem lookups_read (text : String) : lookups (read text).events = [] := by
  unfold read
  cases parse text with
  | error e => rfl
  | ok c =>
    rw [lookups, List.filterMap_eq_nil_iff]
    intro event member
    rw [List.eq_of_mem_replicate member]
    rfl

theorem value_read (text : String) : (read text).value = parse text := by
  unfold read
  cases parse text <;> rfl

theorem value_evaluate_of_parse {text : String} {c : Condition} (parsed : parse text = .ok c)
    (flags : FlagSet) : (evaluate flags text).value = c.holds flags := by
  rw [evaluate, Recorded.value_bind, value_read, parsed, ← value_decide]

theorem lookups_evaluate_of_parse {text : String} {c : Condition} (parsed : parse text = .ok c)
    (flags : FlagSet) :
    lookups (evaluate flags text).events = lookups (c.decide flags).events := by
  rw [evaluate, Recorded.events_bind, lookups_append, lookups_read, List.nil_append, value_read,
    parsed]

theorem part_of_read {text : String} {n : Notice} (member : .notice n ∈ (read text).events) :
    n.part = .condition := by
  unfold read at member
  split at member
  · exact absurd member List.not_mem_nil
  · cases List.eq_of_mem_replicate member
    rfl

theorem part_of_evaluate {flags : FlagSet} {text : String} {n : Notice}
    (member : .notice n ∈ (evaluate flags text).events) : n.part = .condition := by
  rw [evaluate, Recorded.events_bind, value_read, List.mem_append] at member
  rcases member with first | second
  · exact part_of_read first
  · split at second
    · exact absurd second (notice_not_mem_decide flags _ n)
    · exact absurd second List.not_mem_nil
    · rcases List.mem_cons.1 second with here | behind
      · cases here
        rfl
      · cases List.mem_singleton.1 behind

theorem asked_of_evaluate {flags : FlagSet} {text : String} {query : String × Bool}
    (asked : query ∈ lookups (evaluate flags text).events) :
    (∃ c, parse text = .ok c ∧ query ∈ lookups (c.decide flags).events) ∨
      ((∃ e, parse text = .error e) ∧ query = (trimmed text, flags (trimmed text))) := by
  rw [evaluate, Recorded.events_bind, lookups_append, lookups_read, List.nil_append, value_read]
    at asked
  cases parsed : parse text with
  | ok c =>
    rw [parsed] at asked
    exact .inl ⟨c, rfl, asked⟩
  | error e =>
    rw [parsed] at asked
    cases e with
    | empty => exact absurd asked List.not_mem_nil
    | trailing token => exact .inr ⟨⟨_, rfl⟩, List.mem_singleton.1 asked⟩
    | tooDeep => exact .inr ⟨⟨_, rfl⟩, List.mem_singleton.1 asked⟩

/-- A text that is a condition has its flags looked up, any other is looked up as a whole. -/
theorem named_of_evaluate {flags : FlagSet} {text : String} {query : String × Bool}
    (asked : query ∈ lookups (evaluate flags text).events) :
    (∃ c, parse text = .ok c ∧ query.1 ∈ c.identifiers) ∨
      (query.1 = trimmed text ∧ ∃ e, parse text = .error e) := by
  rcases asked_of_evaluate asked with ⟨c, parsed, decided⟩ | ⟨unread, rfl⟩
  · obtain ⟨name, member, rfl⟩ := exists_flag_of_decide decided
    exact .inl ⟨c, parsed, (mem_identifiers_iff c name).2 member⟩
  · exact .inr ⟨rfl, unread⟩

theorem value_of_evaluate {flags : FlagSet} {text : String} {query : String × Bool}
    (asked : query ∈ lookups (evaluate flags text).events) : query.2 = flags query.1 := by
  rcases asked_of_evaluate asked with ⟨c, _, decided⟩ | ⟨_, rfl⟩
  · obtain ⟨name, _, rfl⟩ := exists_flag_of_decide decided
    rfl
  · rfl

end Condition

end Scaffold
