import Scaffold.Answers.Interview

/-! What is printed in an interview: the overview of the answers before each confirmation, and
nothing else. -/

namespace Scaffold

namespace Recorded

variable {α β : Type} {may : String → Prop}

def Prints (may : String → Prop) (x : Recorded α) : Prop :=
  ∀ text, .printed text ∈ x.events → may text

theorem prints_pure (a : α) : (pure a : Recorded α).Prints may :=
  fun _ member => absurd member List.not_mem_nil

theorem Prints.bind {x : Recorded α} {f : α → Recorded β} (first : x.Prints may)
    (later : ∀ a, (f a).Prints may) : (x >>= f).Prints may := by
  intro text member
  rw [events_bind] at member
  rcases List.mem_append.1 member with member | member
  · exact first text member
  · exact later x.value text member

theorem prints_record {event : Event} (allowed : ∀ text, event = .printed text → may text) :
    (record event).Prints may :=
  fun text member => allowed text (List.mem_singleton.1 member).symm

theorem prints_note (notice : Notice) : (note notice).Prints may :=
  prints_record fun _ same => nomatch same

theorem prints_asked (prompt : Prompt) : (record (.asked prompt)).Prints may :=
  prints_record fun _ same => nomatch same

end Recorded

open Recorded

def Answers.overview (a : Answers) : String := "\n" ++ a.summary ++ "\n"

variable {may : String → Prop}

theorem Given.prints_flag? (g : Given) (key : String) : (g.flag? key).Prints may := by
  unfold flag? Preloaded.flag?
  split
  · exact prints_pure _
  · split
    · exact prints_pure _
    · exact prints_pure _
    · split
      · exact prints_pure _
      · exact (prints_note _).bind fun _ => prints_pure _
    · exact (prints_note _).bind fun _ => prints_pure _

theorem Given.prints_noteUndeclared (g : Given) (q : Questionnaire) :
    (g.noteUndeclared q).Prints may := by
  intro text member
  rcases List.mem_append.1 member with member | member
  · obtain ⟨_, _, same⟩ := List.mem_map.1 member
    exact nomatch same
  · obtain ⟨_, _, same⟩ := List.mem_map.1 member
    exact nomatch same

namespace Interview

theorem prints_confirm (spent : PromptFault) (question : String) (offered : Bool)
    (replies : List Reply) : (confirm spent question offered replies).Prints may := by
  cases replies <;> exact (prints_asked _).bind fun _ => prints_pure _

theorem prints_askName (spent : PromptFault) (question offered : String)
    (replies : List Reply) : (askName spent question offered replies).Prints may := by
  induction replies with
  | nil => exact (prints_asked _).bind fun _ => prints_pure _
  | cons reply rest ih =>
    refine (prints_asked _).bind fun _ => ?_
    split
    · exact prints_pure _
    · split
      · exact prints_pure _
      · refine (prints_record fun _ same => nomatch same).bind fun _ => ?_
        exact ih.bind fun _ => prints_pure _

variable (i : Interview)

theorem prints_collectName (offered : String) (replies : List Reply) :
    (i.collectName offered replies).Prints may := by
  unfold collectName
  split
  · exact prints_pure _
  · split
    · exact (prints_askName _ _ _ _).bind fun _ => prints_pure _
    · exact prints_pure _

theorem prints_collectFlags (offers : Table Bool) (questions : List (String × FlagQuestion))
    (replies : List Reply) : (i.collectFlags offers questions replies).Prints may := by
  induction questions generalizing replies with
  | nil => exact prints_pure _
  | cons entry rest ih =>
    rw [collectFlags]
    refine (i.given.prints_flag? entry.1).bind fun answer => ?_
    cases answer with
    | some value => exact (ih replies).bind fun _ => prints_pure _
    | none =>
      dsimp only
      split
      · refine (prints_confirm _ _ _ _).bind fun told => ?_
        split
        · exact prints_pure _
        · exact (ih told.left).bind fun _ => prints_pure _
      · exact (ih replies).bind fun _ => prints_pure _

theorem prints_undeclaredFlags (g : Given) (keys : List String) :
    (undeclaredFlags g keys).Prints may := by
  induction keys with
  | nil => exact prints_pure _
  | cons key rest ih =>
    exact (g.prints_flag? key).bind fun _ => ih.bind fun _ => prints_pure _

theorem prints_collect (offered : String) (offers : Table Bool) (replies : List Reply) :
    (i.collect offered offers replies).Prints may := by
  refine (i.prints_collectName offered replies).bind fun name => ?_
  split
  · exact prints_pure _
  · refine (i.prints_collectFlags offers _ _).bind fun flags => ?_
    split
    · exact prints_pure _
    · refine (prints_undeclaredFlags _ _).bind fun more => ?_
      exact (prints_note _).bind fun _ => prints_pure _

theorem prints_rounds (offered : String) (offers : Table Bool) (replies : List Reply) :
    (i.rounds offered offers replies).Prints fun text => ∃ a : Answers, text = a.overview := by
  fun_induction rounds i offered offers replies with
  | case1 offered offers replies ih =>
    refine (i.prints_collect offered offers replies).bind fun collected => ?_
    obtain ⟨result, left, shorter⟩ := collected
    cases result with
    | error e => exact prints_pure _
    | ok collected =>
      obtain ⟨answers, asked⟩ := collected
      cases asked with
      | false => exact prints_pure _
      | true =>
        refine (prints_record fun text same => ⟨answers, by cases same; rfl⟩).bind fun _ => ?_
        refine (prints_asked _).bind fun _ => ?_
        cases left with
        | nil => exact prints_pure _
        | cons reply later =>
          dsimp only
          split
          · exact prints_pure _
          · exact prints_pure _
          · exact (ih answers reply later shorter).bind fun _ => prints_pure _

/-- An interview prints overviews of answers, one for each round that comes to its end. -/
theorem prints_run (replies : List Reply) :
    (i.run replies).Prints fun text => ∃ a : Answers, text = a.overview := by
  unfold run
  split
  · exact prints_pure _
  · exact (i.given.prints_noteUndeclared _).bind fun _ => i.prints_rounds _ _ _

end Interview

end Scaffold
