import Promises.Proofs.Shell.Phase

namespace Promises

namespace Shell

variable {s t : Shell} {c : Command} {limit n : ℕ} {phase next last : Phase} {commands more : List Command}
  {lines : List String} {line : String} {o : Fate} {links early late : List Link}

/-- A line that is read as a command. -/
def Reads (line : String) (c : Command) : Prop := parse (Text.trim line.toList) = .ok c

theorem Reads.fits (h : Reads line c) : c.Fits := (parse_eq_ok_iff.1 h).1

/-- A line with a command begins with a word. -/
theorem starts_of_parse {cs : List Char} (h : parse cs = .ok c) :
    ∃ word ∈ keywords, ∃ rest, cs = word.toList ++ rest := by
  obtain ⟨-, tokens, ht, hj⟩ := parse_eq_ok_iff.1 h
  cases ht with
  | new => exact ⟨"new", by decide, hj.starts⟩
  | run => exact ⟨"run", by decide, hj.starts⟩
  | gc => exact ⟨"gc", by decide, hj.starts⟩
  | stats => exact ⟨"stats", by decide, hj.starts⟩
  | terminate => exact ⟨"terminate", by decide, hj.starts⟩
  | resume => exact ⟨"resume", by decide, hj.starts⟩
  | help => exact ⟨"help", by decide, hj.starts⟩
  | settle kind => exact ⟨settleName kind, by cases kind <;> decide, hj.starts⟩
  | state => exact ⟨"state", by decide, hj.starts⟩
  | result => exact ⟨"result", by decide, hj.starts⟩
  | promise => exact ⟨"promise", by decide, hj.starts⟩
  | attach kind => exact ⟨attachName kind, by cases kind <;> decide, hj.starts⟩

/-- Such a line is neither empty nor a comment. -/
theorem Reads.exec_eq (h : Reads line c) (s : Shell) :
    exec line s = (do return (← execute c).map some : Run Agent Memory Empty _) s := by
  obtain ⟨word, hword, rest, hrest⟩ := starts_of_parse h
  have hletter : ∀ word ∈ keywords, word.toList.head?.any (· ≠ '#') = true := by decide
  have hfirst := hletter word hword
  obtain ⟨act, hact⟩ : ∃ act, exec line = act := ⟨_, rfl⟩
  rw [hact]
  unfold exec at hact
  split at hact
  · rename_i hempty
    rw [hempty] at hrest
    rw [(List.append_eq_nil_iff.1 hrest.symm).1] at hfirst
    cases hfirst
  · rename_i hcomment
    rw [hcomment] at hrest
    cases hw : word.toList with
    | nil =>
      rw [hw] at hfirst
      cases hfirst
    | cons letter letters =>
      rw [hw] at hfirst hrest
      obtain ⟨rfl, -⟩ := List.cons.inj hrest
      cases hfirst
  · rw [h] at hact
    exact hact ▸ rfl

/-- Whatever the last promise has come to is printed. -/
theorem Concluded.prints (h : Concluded limit (.settled o links) s) :
    (∀ line, Reads line (.state links.length) →
        ∃ t, exec line s = .ok (.ok (some (toString (folded links o).state))) t) ∧
      ∀ line, Reads line (.result links.length) →
        ∃ t, exec line s = .ok (.ok (some (folded links o).2.printed)) t := by
  obtain ⟨p, ties, rfl, hh, hover, hlasts⟩ := h
  obtain ⟨record, hr, hstatus⟩ := hover.tip
  have hslot (t : Shell) : (s.deskOf t).promises[(Shell.links ties).length]? = some (tip p ties) := by
    rw [hh.getElem?, List.length_map]
    exact getElem?_refs p ties
  have hstate : record.state = (folded (Shell.links ties) o).state := by
    rw [PromiseRecord.state, hstatus, Fate.state]
    cases (folded (Shell.links ties) o).1 <;> rfl
  have hresult : record.result = (folded (Shell.links ties) o).2.managed := by
    rw [PromiseRecord.result, hstatus, PromiseStatus.result_settled]
  have hplain (ref : ObjectRef) : record.result ≠ .object ref := hresult ▸ Datum.managed_ne_object _ ref
  -- a line that only tells something leaves the engine as it was
  have hline {line : String} {c : Command} {text : String} (hreads : Reads line c)
      (hperform : ∀ t, Beside (s.prepared c) t →
        (s.deskOf t).perform c s.isolate.engine = .ok (.said text) s.isolate.engine) :
      ∃ t, exec line s = .ok (.ok (some text)) t := by
    obtain ⟨u, t, hexecute, hd⟩ := performed_of_perform hh.kept hreads.fits fun t hb => ⟨_, _, hperform t hb⟩
    obtain ⟨rfl, -⟩ := EStateM.Result.ok.inj (hd.perform.symm.trans (hperform t hd.beside))
    exact ⟨t, exec_run hreads.exec_eq hexecute⟩
  refine ⟨fun line hreads => hline hreads fun t _ => ?_, fun line hreads => hline hreads fun t hb => ?_⟩
  · rw [← hstate]
    exact Desk.perform_state (hslot t) hr
  · have hstays : (folded (Shell.links ties) o).2.Stays (s.deskOf t).reading :=
      (hlasts.grown hb.strings).stays.folded _
    rw [← Desk.shown_managed hstays s.isolate.engine, ← hresult]
    exact Desk.perform_result (hslot t) hr hplain

/-- Commands that go on with a chain. -/
inductive Phase.Leads : Phase → List Command → Phase → Prop
  | nil {phase : Phase} : Leads phase [] phase
  | cons {phase next last : Phase} {c : Command} {commands : List Command} (h : phase.Next c next)
    (hrest : Leads next commands last) : Leads phase (c :: commands) last

/-- No link is taken back. -/
theorem Phase.Next.length_le (h : phase.Next c next) : phase.links.length ≤ next.links.length := by
  cases h with
  | idle => exact Nat.le_refl _
  | new => exact Nat.le_refl _
  | settle => exact Nat.le_refl _
  | attach l => exact (List.prefix_append _ _).length_le
  | follow l => exact (List.prefix_append _ _).length_le

theorem Phase.Leads.length_le (h : phase.Leads commands last) : phase.links.length ≤ last.links.length := by
  induction h with
  | nil => exact Nat.le_refl _
  | cons h _ ih => exact h.length_le.trans ih

theorem Phase.Leads.append (h : phase.Leads commands next) (hmore : next.Leads more last) :
    phase.Leads (commands ++ more) last := by
  induction h with
  | nil => exact hmore
  | cons h _ ih => exact .cons h (ih hmore)

/-- The answers to the checkpoints. -/
def checkpoints {α : Type} : List Command → List α → List α
  | c :: commands, answer :: answers =>
    if c = .run then answer :: checkpoints commands answers else checkpoints commands answers
  | _, _ => []

/-- All lines were answered, the checkpoints among them with these numbers of reactions. -/
structure Answered (s t : Shell) (lines : List String) (commands : List Command) (counts : List ℕ) : Prop where
  all : ∃ answers : List (Except Failure (Option String)), session s lines = (answers.map .ok, t) ∧
    answers.length = lines.length ∧
    checkpoints commands answers = counts.map fun n => .ok (some s!"ran {n} reaction(s)")

theorem Answered.cons {u : Shell} {counts : List ℕ} (h : Answered t u lines commands counts) {ran left : ℕ}
    (hreads : Reads line c) (he : Entered limit s t c phase ran left) :
    ∃ more, Answered s u (line :: lines) (c :: commands) more ∧ more.sum = ran + counts.sum := by
  obtain ⟨answers, hsession, hlength, hcounts⟩ := h.all
  obtain ⟨answer, hexecute, hrun⟩ := he.answer
  have hmore : session s (line :: lines) = ((answer.map some :: answers).map .ok, u) := by
    rw [session_ok (exec_run hreads.exec_eq hexecute), hsession]
    rfl
  have hlength : (answer.map some :: answers).length = (line :: lines).length := congrArg (· + 1) hlength
  by_cases hc : c = .run
  · refine ⟨ran :: counts, ⟨_, hmore, hlength, ?_⟩, List.sum_cons⟩
    rw [checkpoints, if_pos hc, hcounts, hrun hc]
    rfl
  · refine ⟨counts, ⟨_, hmore, hlength, ?_⟩, ?_⟩
    · rw [checkpoints, if_neg hc, hcounts]
    · rw [he.ran hc, Nat.zero_add]

/-- Lines that go on with a chain are answered, unless there are more links than handles. The reactions that
they run and those that have still to be run make up for the links that act. -/
theorem Abides.session (h : Abides limit phase n s) (hlines : List.Forall₂ Reads lines commands)
    (hleads : phase.Leads commands last) (hroom : last.links.length < limit) :
    (∃ t counts left, Answered s t lines commands counts ∧ counts.sum + left + phase.acting = n + last.acting ∧
        (commands.getLast? = some .run → left = 0 ∧ Concluded limit last t)) ∨
      HandleId.capacity ≤ last.links.length ∧
        (session s lines).1.getLast? = some (.error (.fault .tableFull)) := by
  -- each step moves reactions from those that have still to be run to those that were run
  induction hlines generalizing s phase n with
  | nil =>
    cases hleads
    exact .inl ⟨s, [], n, ⟨[], rfl, rfl, rfl⟩, by rw [List.sum_nil, Nat.zero_add], fun h => by cases h⟩
  | @cons line c lines commands hreads hlines ih =>
    cases hleads with
    | @cons _ next _ _ _ hnext hrest =>
    rcases h.step hreads.fits hnext (hrest.length_le.trans_lt hroom) with
      ⟨t, ran, left, he, hcount⟩ | ⟨hfull, t, hexecute⟩
    · obtain ⟨answer, hexecute, -⟩ := he.answer
      have hsession : session s (line :: lines) = (_ :: (session t lines).1, _) :=
        session_ok (exec_run hreads.exec_eq hexecute)
      rcases ih he.abides hrest with ⟨u, counts, left', hanswered, hcount', hlast⟩ | ⟨hfull, hend⟩
      · obtain ⟨counts', hmore, hsum⟩ := hanswered.cons hreads he
        refine .inl ⟨u, counts', left', hmore, by omega, fun hend => ?_⟩
        cases hlines with
        | nil =>
          cases hrest
          obtain ⟨answers, hnil, -⟩ := hanswered.all
          obtain rfl : t = u := congrArg Prod.snd hnil
          obtain ⟨rfl, hconcluded⟩ := he.concluded (Option.some.inj hend)
          exact ⟨by omega, hconcluded⟩
        | cons =>
          rw [List.getLast?_cons_cons] at hend
          exact hlast hend
      · refine .inr ⟨hfull, ?_⟩
        rw [hsession, List.getLast?_cons, hend]
        rfl
    · refine .inr ⟨hfull.trans hrest.length_le, ?_⟩
      rw [session_error (exec_error hreads.exec_eq hexecute)]
      rfl

end Shell

end Promises
