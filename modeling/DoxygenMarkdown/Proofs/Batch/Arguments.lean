import DoxygenMarkdown.Batch.Arguments

/-!
# Arguments and a flag among them

A flag changes nothing but what it stands for: arguments with some `--dry-run` among them ask for
the same as without, only for a dry run (`options_eq_of_withDryRun`), and in front of arguments the
flag is always accepted (`readArguments_dryRun_cons`). The first is not plain, because the option
for file endings takes values until the next option, so that a flag among its values makes those
behind it paths. But then one of the two lists of arguments is refused.

What it means to be accepted is said by a relation with one rule for each kind of argument
(`State.Accepts`, `State.take_eq_ok_iff`). Two states are compared along two accepted lists of
arguments, the one with flags and the other without: they agree (`State.Follows`) until a value is
taken as a file ending by one and as the path by the other, and from then on one of them will never
be accepted (`State.not_accepts_of_path`).
-/

namespace DoxygenMarkdown.Batch

/-- Arguments, and the same with some more flags for a dry run among them. -/
inductive WithDryRun : (arguments more : List Text) → Prop
  | nil : WithDryRun [] []
  | cons (t : Text) {arguments more : List Text} (h : WithDryRun arguments more) :
    WithDryRun (t :: arguments) (t :: more)
  | flag {t : Text} (ht : readArgument t = .option .dryRun none) {arguments more : List Text}
    (h : WithDryRun arguments more) : WithDryRun arguments (t :: more)

theorem readArgument_end : readArgument "--".toList = .ambiguous := by decide

theorem WithDryRun.end_mem {arguments more : List Text} (h : WithDryRun arguments more)
    (hend : "--".toList ∈ arguments) : "--".toList ∈ more := by
  induction h with
  | nil => exact hend
  | cons t h ih =>
    rcases List.mem_cons.1 hend with rfl | hend
    · exact List.mem_cons_self
    · exact List.mem_cons_of_mem _ (ih hend)
  | flag ht h ih => exact List.mem_cons_of_mem _ (ih hend)

theorem WithDryRun.eq_singleton {arguments : List Text} {t : Text}
    (h : WithDryRun arguments [t]) (ht : readArgument t ≠ .option .dryRun none) :
    arguments = [t] := by
  cases h with
  | cons t h => cases h; rfl
  | flag ht' h => exact absurd ht' ht

namespace State

/-! ## What is accepted -/

/-- Arguments that are accepted in a state, and the options that they make up. -/
inductive Accepts : State → List Text → Options → Prop
  | finish {s : State} {o : Options} (h : s.finish = .ok o) : Accepts s [] o
  | paths {s : State} {p : Text} {o : Options} (hcollecting : s.collecting ≠ .first)
    (hpath : s.path = none) (h : finish { s with path := some p, collecting := .no } = .ok o) :
    Accepts s ["--".toList, p] o
  | option {s s' : State} {t : Text} {f : Flag} {attached : Option Text} {rest : List Text}
    {o : Options} (ht : readArgument t = .option f attached) (hcollecting : s.collecting ≠ .first)
    (h : takeOption { s with collecting := .no } f attached = .ok s') (hrest : Accepts s' rest o) :
    Accepts s (t :: rest) o
  | extension {s : State} {t v : Text} {rest : List Text} {o : Options}
    (ht : readArgument t = .value v) (hcollecting : s.collecting ≠ .no)
    (hrest : Accepts { s with extensions := s.extensions ++ [v], collecting := .further } rest o) :
    Accepts s (t :: rest) o
  | path {s : State} {t v : Text} {rest : List Text} {o : Options}
    (ht : readArgument t = .value v) (hcollecting : s.collecting = .no) (hpath : s.path = none)
    (hrest : Accepts { s with path := some v } rest o) : Accepts s (t :: rest) o
  | lastPath {s : State} {t v : Text} {o : Options} (ht : readArgument t = .value v)
    (hcollecting : s.collecting = .no) (hpath : s.path = none)
    (h : finish { s with path := some v } = .ok o) : Accepts s [t, "--".toList] o

variable {s s' : State} {t : Text} {arguments rest more : List Text} {o o' : Options}

theorem stopCollecting_eq_ok_iff :
    s.stopCollecting = .ok s' ↔ s.collecting ≠ .first ∧ s' = { s with collecting := .no } := by
  rw [stopCollecting]
  split
  · next h => exact iff_of_false nofun fun h' => h'.1 h
  · next h =>
    rw [Except.ok.injEq]
    exact ⟨fun heq => ⟨h, heq.symm⟩, fun h' => h'.2.symm⟩

theorem finish_eq_ok_iff :
    s.finish = .ok o ↔ s.collecting ≠ .first ∧ s.stray = false ∧ ∃ p, s.path = some p ∧
      o = ⟨p, s.extensions, s.dryRun, s.backup, s.keepIndent⟩ := by
  rw [finish]
  cases hstop : s.stopCollecting with
  | error refusal =>
    refine iff_of_false nofun fun h => ?_
    rw [stopCollecting_eq_ok_iff.2 ⟨h.1, rfl⟩] at hstop
    cases hstop
  | ok s' =>
    obtain ⟨hcollecting, rfl⟩ := stopCollecting_eq_ok_iff.1 hstop
    cases hpath : s.path <;> cases hstray : s.stray <;>
      simp [hcollecting, eq_comm]

theorem finishPaths_eq_ok_iff :
    s.finishPaths rest = .ok o ↔
      s.path = none ∧ ∃ p, rest = [p] ∧ finish { s with path := some p } = .ok o := by
  rw [finishPaths.eq_def]
  rcases hpath : s.path with _ | p
  · rcases rest with _ | ⟨q, _ | ⟨q', rest⟩⟩
    · simp
    · simp
    · simp [finish_eq_ok_iff]
  · simp

/-- An option leaves the path alone, and it forgets nothing stray. -/
theorem path_takeOption {f : Flag} {attached : Option Text} (h : s.takeOption f attached = .ok s') :
    s'.path = s.path := by
  rw [takeOption.eq_def] at h
  split at h <;> cases h <;> rfl

theorem stray_takeOption {f : Flag} {attached : Option Text}
    (h : s.takeOption f attached = .ok s') : s'.stray = s.stray := by
  rw [takeOption.eq_def] at h
  split at h <;> cases h <;> rfl

/-- Where a value is due, only a value is taken in. -/
theorem stopCollecting_of_take (h : s.take (t :: rest) = .ok o)
    (ht : ∀ v, readArgument t ≠ .value v) :
    s.collecting ≠ .first ∧ s.stopCollecting = .ok { s with collecting := .no } := by
  cases hstop : s.stopCollecting with
  | ok s' =>
    obtain ⟨hcollecting, rfl⟩ := stopCollecting_eq_ok_iff.1 hstop
    exact ⟨hcollecting, rfl⟩
  | error refusal =>
    rw [take, hstop] at h
    by_cases hend : t = "--".toList
    · rw [if_pos hend] at h
      cases h
    · rw [if_neg hend] at h
      cases hread : readArgument t with
      | value v => exact absurd hread (ht v)
      | _ => rw [hread] at h; cases h

/-- What takes in arguments accepts them. Nothing stray is forgotten. -/
theorem accepts_of_take (h : s.take arguments = .ok o) :
    s.stray = false ∧ s.Accepts arguments o := by
  induction arguments generalizing s with
  | nil => exact ⟨(finish_eq_ok_iff.1 h).2.1, .finish h⟩
  | cons t rest ih =>
    have hstopped := stopCollecting_of_take h
    rw [take] at h
    by_cases hend : t = "--".toList
    · subst hend
      obtain ⟨hcollecting, hstop⟩ := hstopped (by rw [readArgument_end]; simp)
      rw [if_pos rfl, hstop] at h
      obtain ⟨hpath, p, rfl, hfinish⟩ := finishPaths_eq_ok_iff.1 h
      exact ⟨(finish_eq_ok_iff.1 hfinish).2.1, .paths hcollecting hpath hfinish⟩
    rw [if_neg hend] at h
    cases ht : readArgument t with
    | value v =>
      rw [ht] at h
      simp only at h
      by_cases hcollecting : s.collecting = .no
      · rw [if_neg fun h => h hcollecting] at h
        rcases hpath : s.path with _ | p
        · rw [hpath, if_neg (by decide)] at h
          split at h
          · next hrest =>
            subst hrest
            exact ⟨(finish_eq_ok_iff.1 h).2.1, .lastPath ht hcollecting hpath h⟩
          · obtain ⟨hstray, haccepts⟩ := ih h
            exact ⟨hstray, .path ht hcollecting hpath haccepts⟩
        · rw [hpath, if_pos (by rfl)] at h
          exact nomatch (ih h).1
      · rw [if_pos hcollecting] at h
        obtain ⟨hstray, haccepts⟩ := ih h
        exact ⟨hstray, .extension ht hcollecting haccepts⟩
    | option f attached =>
      obtain ⟨hcollecting, hstop⟩ := hstopped (by simp [ht])
      rw [ht, hstop] at h
      cases htaken : takeOption { s with collecting := .no } f attached with
      | error refusal => simp only [htaken] at h; cases h
      | ok s' =>
        simp only [htaken] at h
        obtain ⟨hstray, haccepts⟩ := ih h
        exact ⟨(stray_takeOption htaken).symm.trans hstray,
          .option ht hcollecting htaken haccepts⟩
    | bundle more =>
      obtain ⟨-, hstop⟩ := hstopped (by simp [ht])
      rw [ht, hstop] at h
      cases h
    | unknown =>
      obtain ⟨-, hstop⟩ := hstopped (by simp [ht])
      rw [ht, hstop] at h
      exact nomatch (ih h).1
    | ambiguous =>
      obtain ⟨-, hstop⟩ := hstopped (by simp [ht])
      rw [ht, hstop] at h
      exact nomatch (ih h).1

theorem Accepts.of_option {f : Flag} {attached : Option Text} (h : s.Accepts (t :: rest) o)
    (ht : readArgument t = .option f attached) :
    ∃ k, takeOption { s with collecting := .no } f attached = .ok k ∧ k.Accepts rest o := by
  cases h with
  | option ht' hcollecting hoption hrest =>
    rw [ht] at ht'
    cases ht'
    exact ⟨_, hoption, hrest⟩
  | paths => rw [readArgument_end] at ht; cases ht
  | extension ht' => rw [ht] at ht'; cases ht'
  | path ht' => rw [ht] at ht'; cases ht'
  | lastPath ht' => rw [ht] at ht'; cases ht'

theorem Accepts.of_value {v : Text} (h : s.Accepts (t :: rest) o)
    (ht : readArgument t = .value v) :
    (s.collecting ≠ .no ∧ Accepts
        { s with extensions := s.extensions ++ [v], collecting := .further } rest o) ∨
      s.collecting = .no ∧ s.path = none ∧
        (Accepts { s with path := some v } rest o ∨
          rest = ["--".toList] ∧ State.finish { s with path := some v } = .ok o) := by
  cases h with
  | extension ht' hcollecting hrest =>
    rw [ht] at ht'
    cases ht'
    exact .inl ⟨hcollecting, hrest⟩
  | path ht' hcollecting hpath hrest =>
    rw [ht] at ht'
    cases ht'
    exact .inr ⟨hcollecting, hpath, .inl hrest⟩
  | lastPath ht' hcollecting hpath hfinish =>
    rw [ht] at ht'
    cases ht'
    exact .inr ⟨hcollecting, hpath, .inr ⟨rfl, hfinish⟩⟩
  | paths => rw [readArgument_end] at ht; cases ht
  | option ht' => rw [ht] at ht'; cases ht'

/-- A flag for a dry run stops the values of an option and sets one field. -/
theorem Accepts.of_dryRun (h : s.Accepts (t :: rest) o)
    (ht : readArgument t = .option .dryRun none) :
    Accepts { s with collecting := .no, dryRun := true } rest o := by
  obtain ⟨k, hk, hrest⟩ := h.of_option ht
  cases hk
  exact hrest

theorem Accepts.of_end (h : s.Accepts ("--".toList :: rest) o) :
    s.path = none ∧ ∃ p, rest = [p] ∧
      State.finish { s with path := some p, collecting := .no } = .ok o := by
  cases h with
  | paths hcollecting hpath hfinish => exact ⟨hpath, _, rfl, hfinish⟩
  | option ht => rw [readArgument_end] at ht; cases ht
  | extension ht => rw [readArgument_end] at ht; cases ht
  | path ht => rw [readArgument_end] at ht; cases ht
  | lastPath ht => rw [readArgument_end] at ht; cases ht

/-- Two hyphens at the end are accepted only right after a path. -/
theorem not_accepts_end : ¬ s.Accepts ["--".toList] o := by
  intro h
  obtain ⟨-, p, hp, -⟩ := h.of_end
  cases hp

/-- Behind a path there are no two hyphens, except right behind it. -/
theorem not_accepts_of_end_mem (hpath : s.path.isSome = true) (hend : "--".toList ∈ arguments) :
    ¬ s.Accepts arguments o := by
  intro h
  induction h with
  | finish h => cases hend
  | paths hcollecting hnone h => rw [hnone] at hpath; cases hpath
  | option ht hcollecting h hrest ih =>
    rcases List.mem_cons.1 hend with rfl | hend
    · rw [readArgument_end] at ht; cases ht
    · exact ih ((path_takeOption h).symm ▸ hpath) hend
  | extension ht hcollecting hrest ih =>
    rcases List.mem_cons.1 hend with rfl | hend
    · rw [readArgument_end] at ht; cases ht
    · exact ih hpath hend
  | path ht hcollecting hnone hrest ih => rw [hnone] at hpath; cases hpath
  | lastPath ht hcollecting hnone h => rw [hnone] at hpath; cases hpath

/-- What is accepted is taken in. -/
theorem take_of_accepts (h : s.Accepts arguments o) : s.take arguments = .ok o := by
  have hne {t : Text} (ht : readArgument t ≠ .ambiguous) : t ≠ "--".toList := by
    rintro rfl
    exact ht readArgument_end
  induction h with
  | finish h => exact h
  | paths hcollecting hpath h =>
    rw [take, if_pos rfl, stopCollecting_eq_ok_iff.2 ⟨hcollecting, rfl⟩]
    exact finishPaths_eq_ok_iff.2 ⟨hpath, _, rfl, h⟩
  | option ht hcollecting h hrest ih =>
    rw [take, if_neg (hne (by rw [ht]; nofun)), ht]
    simp only [stopCollecting_eq_ok_iff.2 ⟨hcollecting, rfl⟩, h, ih]
  | extension ht hcollecting hrest ih =>
    rw [take, if_neg (hne (by rw [ht]; nofun)), ht]
    exact (if_pos hcollecting).trans ih
  | @path s t v rest o ht hcollecting hpath hrest ih =>
    have hrest' : rest ≠ ["--".toList] := by
      rintro rfl
      exact not_accepts_end hrest
    rw [take, if_neg (hne (by rw [ht]; nofun)), ht]
    refine (if_neg fun hcollects => hcollects hcollecting).trans ?_
    rw [if_neg (by rw [hpath]; decide), if_neg hrest']
    exact ih
  | lastPath ht hcollecting hpath h =>
    rw [take, if_neg (hne (by rw [ht]; nofun)), ht]
    refine (if_neg fun hcollects => hcollects hcollecting).trans ?_
    rw [if_neg (by rw [hpath]; decide), if_pos rfl]
    exact h

theorem take_eq_ok_iff : s.take arguments = .ok o ↔ s.Accepts arguments o :=
  ⟨fun h => (accepts_of_take h).2, take_of_accepts⟩

/-! ## Two states along two lists of arguments -/

/-- An option does the same to states that are alike in what it looks at. -/
theorem collecting_takeOption {f : Flag} {attached : Option Text} {k k' : State}
    (h : s.takeOption f attached = .ok k) (h' : s'.takeOption f attached = .ok k')
    (hcollecting : s'.collecting = s.collecting) : k'.collecting = k.collecting := by
  rw [takeOption.eq_def] at h h'
  split at h <;> cases h <;> cases h' <;> first | exact hcollecting | rfl

/-- A state that has a path and one that has none are not both led to the end, unless only the one
that has a path takes values. -/
theorem not_accepts_of_path (hflags : WithDryRun arguments more) (hnone : s.path = none)
    (hsome : s'.path.isSome = true)
    (hcollecting : s'.collecting = .no ∨ s'.collecting = s.collecting)
    (h : s.Accepts arguments o) : ¬ s'.Accepts more o' := by
  intro h'
  induction hflags generalizing s s' with
  | nil =>
    cases h with
    | finish h =>
      obtain ⟨-, -, p, hp, -⟩ := finish_eq_ok_iff.1 h
      rw [hnone] at hp
      cases hp
  | flag ht hflags ih =>
    refine ih ?_ ?_ ?_ h (h'.of_dryRun ht)
    · exact hnone
    · exact hsome
    · exact .inl rfl
  | cons t hflags ih =>
    cases h' with
    | paths hfirst' hnone' => rw [hnone'] at hsome; cases hsome
    | path ht hno hnone' => rw [hnone'] at hsome; cases hsome
    | lastPath ht hno hnone' => rw [hnone'] at hsome; cases hsome
    | option ht hfirst' hoption' hrest' =>
      obtain ⟨k, hoption, hrest⟩ := h.of_option ht
      exact ih ((path_takeOption hoption).trans hnone) ((path_takeOption hoption').symm ▸ hsome)
        (.inr (collecting_takeOption hoption hoption' rfl)) hrest hrest'
    | extension ht hcollects hrest' =>
      rcases h.of_value ht with ⟨-, hrest⟩ | ⟨hno, -⟩
      · refine ih ?_ ?_ ?_ hrest hrest'
        · exact hnone
        · exact hsome
        · exact .inr rfl
      · exact hcollects ((hcollecting.resolve_left hcollects).trans hno)

/-- The state `s'` agrees with `s`, except that a flag may have ended the values of an option that
go on in `s`. -/
structure Follows (s s' : State) : Prop where
  path : s'.path = s.path
  extensions : s'.extensions = s.extensions
  backup : s'.backup = s.backup
  keepIndent : s'.keepIndent = s.keepIndent
  collecting : s'.collecting = .no ∨ s'.collecting = s.collecting

theorem Follows.takeOption {f : Flag} {attached : Option Text} {k k' : State}
    (hs : Follows s s') (h : State.takeOption { s with collecting := .no } f attached = .ok k)
    (h' : State.takeOption { s' with collecting := .no } f attached = .ok k') : Follows k k' := by
  have hcollecting := collecting_takeOption h h' rfl
  rw [takeOption.eq_def] at h h'
  split at h <;> cases h <;> cases h' <;>
    exact ⟨hs.path, by first | exact hs.extensions | rfl, by first | exact hs.backup | rfl,
      by first | exact hs.keepIndent | rfl, .inr hcollecting⟩

/-- At the end, states that agree stand for the same options. -/
theorem Follows.finish (hs : Follows s s') (h : s.finish = .ok o) (h' : s'.finish = .ok o') :
    o' = { o with dryRun := o'.dryRun } := by
  obtain ⟨-, -, p, hp, rfl⟩ := finish_eq_ok_iff.1 h
  obtain ⟨-, -, p', hp', rfl⟩ := finish_eq_ok_iff.1 h'
  obtain rfl : p' = p := Option.some.inj (hp'.symm.trans (hs.path.trans hp))
  rw [hs.extensions, hs.backup, hs.keepIndent]

/-- Flags for a dry run change nothing else. -/
theorem Follows.options_eq (hflags : WithDryRun arguments more) (hs : Follows s s')
    (h : s.Accepts arguments o) (h' : s'.Accepts more o') :
    o' = { o with dryRun := o'.dryRun } := by
  induction hflags generalizing s s' with
  | nil => cases h with | finish h => cases h' with | finish h' => exact hs.finish h h'
  | flag ht hflags ih =>
    refine ih ?_ h (h'.of_dryRun ht)
    exact ⟨hs.path, hs.extensions, hs.backup, hs.keepIndent, .inl rfl⟩
  | @cons t rest more hflags ih =>
    have hcollecting (hno : s.collecting = .no) : s'.collecting = .no :=
      hs.collecting.elim id fun h => h.trans hno
    have hend : readArgument "--".toList ≠ .option .dryRun none := by
      rw [readArgument_end]
      nofun
    cases h with
    | option ht hfirst hoption hrest =>
      obtain ⟨k, hoption', hrest'⟩ := h'.of_option ht
      exact ih (hs.takeOption hoption hoption') hrest hrest'
    | paths hfirst hnone hfinish =>
      obtain ⟨-, p', rfl, hfinish'⟩ := h'.of_end
      cases hflags with
      | cons p hflags =>
        refine Follows.finish ?_ hfinish hfinish'
        exact ⟨rfl, hs.extensions, hs.backup, hs.keepIndent, .inl rfl⟩
      | flag ht hflags => cases hflags
    | extension ht hcollects hrest =>
      rcases h'.of_value ht with ⟨-, hrest'⟩ | ⟨hno', hnone', hrest' | ⟨rfl, -⟩⟩
      · refine ih ?_ hrest hrest'
        exact ⟨hs.path, congrArg (· ++ _) hs.extensions, hs.backup, hs.keepIndent, .inr rfl⟩
      · -- the value is a file ending on the one side and the path on the other
        refine absurd hrest' (not_accepts_of_path hflags ?_ rfl (.inl hno') hrest)
        exact hs.path.symm.trans hnone'
      · rw [hflags.eq_singleton hend] at hrest
        exact absurd hrest not_accepts_end
    | path ht hno hnone hrest =>
      rcases h'.of_value ht with ⟨hcollects', -⟩ | ⟨-, -, hrest' | ⟨rfl, -⟩⟩
      · exact absurd (hcollecting hno) hcollects'
      · refine ih ?_ hrest hrest'
        exact ⟨rfl, hs.extensions, hs.backup, hs.keepIndent, .inl (hcollecting hno)⟩
      · rw [hflags.eq_singleton hend] at hrest
        exact absurd hrest not_accepts_end
    | lastPath ht hno hnone hfinish =>
      rcases h'.of_value ht with ⟨hcollects', -⟩ | ⟨-, -, hrest' | ⟨-, hfinish'⟩⟩
      · exact absurd (hcollecting hno) hcollects'
      · exact absurd hrest'
          (not_accepts_of_end_mem rfl (hflags.end_mem List.mem_cons_self))
      · refine Follows.finish ?_ hfinish hfinish'
        exact ⟨rfl, hs.extensions, hs.backup, hs.keepIndent, .inl (hcollecting hno)⟩

/-- A flag at the beginning is kept in mind to the end. -/
theorem Accepts.dryRun (h : s.Accepts arguments o) :
    Accepts { s with dryRun := true } arguments { o with dryRun := true } := by
  have hfinish {s : State} {o : Options} (h : s.finish = .ok o) :
      State.finish { s with dryRun := true } = .ok { o with dryRun := true } := by
    obtain ⟨hcollecting, hstray, p, hp, rfl⟩ := finish_eq_ok_iff.1 h
    exact finish_eq_ok_iff.2 ⟨hcollecting, hstray, p, hp, rfl⟩
  induction h with
  | finish h => exact .finish (hfinish h)
  | paths hcollecting hpath h => exact .paths hcollecting hpath (hfinish h)
  | @option s s' t f attached rest o ht hcollecting h hrest ih =>
    refine .option ht hcollecting ?_ ih
    rw [State.takeOption.eq_def] at h ⊢
    split at h <;> cases h <;> rfl
  | extension ht hcollecting hrest ih => exact .extension ht hcollecting ih
  | path ht hcollecting hpath hrest ih => exact .path ht hcollecting hpath ih
  | lastPath ht hcollecting hpath h => exact .lastPath ht hcollecting hpath (hfinish h)

end State

/-! ## The command line -/

theorem accepts_of_readArguments {arguments : List Text} {o : Options}
    (h : readArguments arguments = .ok o) : State.Accepts {} arguments o := by
  rw [readArguments] at h
  split at h
  · cases h
  · exact State.take_eq_ok_iff.1 h

/-- **A flag for a dry run changes nothing else.** -/
theorem options_eq_of_withDryRun {arguments more : List Text} {o o' : Options}
    (hflags : WithDryRun arguments more) (h : readArguments arguments = .ok o)
    (h' : readArguments more = .ok o') : o' = { o with dryRun := o'.dryRun } := by
  have hfollows : State.Follows {} {} := ⟨rfl, rfl, rfl, rfl, .inr rfl⟩
  exact hfollows.options_eq hflags (accepts_of_readArguments h) (accepts_of_readArguments h')

/-- In front of arguments that are accepted, the flag is accepted too. -/
theorem readArguments_dryRun_cons {arguments : List Text} {o : Options}
    (h : readArguments arguments = .ok o) :
    readArguments ("--dry-run".toList :: arguments) = .ok { o with dryRun := true } := by
  have hflag : readArgument "--dry-run".toList = .option .dryRun none := by decide
  have haccepts : State.Accepts {} ("--dry-run".toList :: arguments) { o with dryRun := true } :=
    .option hflag nofun rfl (accepts_of_readArguments h).dryRun
  rw [readArguments] at h ⊢
  split at h
  · cases h
  · next hclear =>
    rw [List.takeWhile_cons_of_pos (by decide), List.any_cons, hflag]
    rw [if_neg (by simpa using hclear)]
    exact State.take_eq_ok_iff.2 haccepts

end DoxygenMarkdown.Batch
