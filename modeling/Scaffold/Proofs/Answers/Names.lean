import Scaffold.Proofs.Answers.Session

/-! An interview that ends well has a valid project name, wherever the name comes from. -/

namespace Scaffold

theorem ProjectName.isValid_of_read {text name : String}
    (reads : ProjectName.read text = .ok name) : isValid name.toList = true := by
  unfold ProjectName.read at reads
  dsimp only at reads
  split at reads
  · exact nomatch reads
  · split at reads
    next valid =>
      cases reads
      exact valid
    · exact nomatch reads

namespace Interview

variable {i : Interview} {offered : String} {offers : Table Bool} {said : List Exchange}

theorem NameAsked.isValid {spent : PromptFault} {question name : String}
    (asked : NameAsked spent question offered (.ok name) said) :
    ProjectName.isValid name.toList = true := by
  generalize named : Except.ok name = result at asked
  induction asked with
  | failed => exact nomatch named
  | accepted hears reads =>
    cases named
    exact ProjectName.isValid_of_read reads
  | rejected hears refuses again ih => exact ih named

theorem NameSettled.isValid {chosen : Collected String}
    (settled : NameSettled i offered (.ok chosen) said) :
    ProjectName.isValid chosen.value.toList = true := by
  generalize named : Except.ok chosen = result at settled
  cases settled with
  | given known =>
    obtain ⟨name, reads, rfl⟩ := map_eq_ok_iff.1 named.symm
    exact ProjectName.isValid_of_read reads
  | asked unknown may asks =>
    obtain ⟨name, rfl, rfl⟩ := map_eq_ok_iff.1 named.symm
    exact asks.isValid
  | offered unknown silent =>
    obtain ⟨name, reads, rfl⟩ := map_eq_ok_iff.1 named.symm
    exact ProjectName.isValid_of_read reads

theorem Round.isValid {answers : Answers} {asked : Bool}
    (round : Round i offered offers (.ok ⟨answers, asked⟩) said) :
    ProjectName.isValid answers.name.toList = true := by
  cases round with
  | collected name flags => exact name.isValid

theorem Session.isValid {answers : Answers}
    (session : Session i offered offers (.ok answers) said) :
    ProjectName.isValid answers.name.toList = true := by
  generalize ended : Except.ok answers = result at session
  induction session with
  | failed => exact nomatch ended
  | unasked round =>
    cases ended
    exact round.isValid
  | unconfirmed => exact nomatch ended
  | accepted round hears =>
    cases ended
    exact round.isValid
  | declined round hears next ih => exact ih ended

theorem isValid_of_run {replies : List Reply} {answers : Answers}
    (ended : (i.run replies).value.result = .ok answers) :
    ProjectName.isValid answers.name.toList = true := by
  obtain ⟨said, apart, session, took⟩ := exists_session_of_ok ended
  exact session.isValid

end Interview

end Scaffold
