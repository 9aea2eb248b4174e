import Promises.Proofs.Handle.Table

/-! A handle table against a stack of scopes. `ScopeStack` says what the table is for, with entries that are
known by the order in which they were pushed and never mistaken for one another. `Log` puts a table and such
a stack through the same operations, and `Log.stack_refined` compares the two: a handle leads to the entry
that it was given for as long as this is on the stack, and to nothing afterwards until the serials of its
slot come round. -/

namespace Promises

/-- A stack of entries that scopes cut into parts. The entries are numbered. -/
structure ScopeStack where
  /-- What was pushed since the innermost scope opened, the oldest first. -/
  owned : List ℕ
  /-- What the scopes around it own, from the innermost out. The last is what no scope owns. -/
  outer : List (List ℕ)

namespace ScopeStack

def empty : ScopeStack := ⟨[], []⟩

/-- The entries under the innermost scope, the oldest first. -/
def under (s : ScopeStack) : List ℕ := s.outer.reverse.flatten

/-- All entries, the oldest first. -/
def live (s : ScopeStack) : List ℕ := s.under ++ s.owned

/-- The depth and the start of the innermost scope. -/
def mark (s : ScopeStack) : ScopeMark := ⟨s.outer.length, s.under.length⟩

def push (s : ScopeStack) (number : ℕ) : ScopeStack := { s with owned := s.owned ++ [number] }

def opened (s : ScopeStack) : ScopeStack := ⟨[], s.owned :: s.outer⟩

/-- The innermost scope closed: what it owned and what is left. There is no closing without an open scope
or by the mark of another. -/
def close? (s : ScopeStack) (mark : ScopeMark) : Option (List ℕ × ScopeStack) :=
  match s.outer with
  | owned :: outer => if mark = s.mark then some (s.owned, ⟨owned, outer⟩) else none
  | [] => none

variable {s rest : ScopeStack} {mark : ScopeMark} {owned : List ℕ}

@[simp] theorem live_push (s : ScopeStack) (number : ℕ) : (s.push number).live = s.live ++ [number] :=
  (List.append_assoc _ _ _).symm

theorem under_opened (s : ScopeStack) : s.opened.under = s.live := by
  change (s.owned :: s.outer).reverse.flatten = s.outer.reverse.flatten ++ s.owned
  rw [List.reverse_cons, List.flatten_append, List.flatten_singleton]

@[simp] theorem live_opened (s : ScopeStack) : s.opened.live = s.live := by
  calc
    s.opened.live = s.opened.under ++ [] := rfl
    _ = s.live := by rw [List.append_nil, under_opened]

/-- A scope that closes leaves what lay under it. -/
theorem close?_eq_some_iff : s.close? mark = some (owned, rest) ↔
    mark = s.mark ∧ owned = s.owned ∧ s.outer = rest.owned :: rest.outer := by
  unfold close?
  cases houter : s.outer with
  | nil => simp
  | cons level levels =>
    obtain ⟨restOwned, restOuter⟩ := rest
    by_cases hmark : mark = s.mark
    · simp [hmark, eq_comm]
    · simp [hmark]

theorem under_eq_of_outer (houter : s.outer = rest.owned :: rest.outer) : s.under = rest.live := by
  rw [← under_opened rest]
  exact congrArg (fun levels => levels.reverse.flatten) houter

/-- The heights at which scopes start that lie around one another, from the innermost out. -/
def starts : List (List ℕ) → List ℕ
  | [] => []
  | owned :: outer => (⟨owned, outer⟩ : ScopeStack).live.length :: starts outer

theorem starts_outer (houter : s.outer = rest.owned :: rest.outer) :
    starts s.outer = rest.live.length :: starts rest.outer := by
  rw [houter, starts]

theorem length_starts (outer : List (List ℕ)) : (starts outer).length = outer.length := by
  induction outer with
  | nil => rfl
  | cons owned outer ih => rw [starts, List.length_cons, List.length_cons, ih]

/-- A scope starts no higher than the stack reaches. -/
theorem le_of_mem_starts {start : ℕ} (hstart : start ∈ starts s.outer) : start ≤ s.live.length := by
  obtain ⟨owned, outer⟩ := s
  induction outer generalizing owned with
  | nil => cases hstart
  | cons level levels ih =>
    have hunder : (⟨level, levels⟩ : ScopeStack).live.length ≤
        (⟨owned, level :: levels⟩ : ScopeStack).live.length := by
      have hlive : (⟨owned, level :: levels⟩ : ScopeStack).under = (⟨level, levels⟩ : ScopeStack).live :=
        under_eq_of_outer rfl
      rw [← hlive, live, List.length_append]
      omega
    rcases List.mem_cons.1 hstart with rfl | hstart
    · exact hunder
    · exact (ih level hstart).trans hunder

end ScopeStack

namespace HandleTable

/-- What can be done to a table. -/
inductive Operation where
  | push (content : Binding)
  | get (h : HandleId)
  | openScope
  | closeScope (mark : ScopeMark)
  | drain

/-- Each index and each slice that an operation takes lies inside what it is taken of. -/
def InBounds (t : HandleTable) : Operation → Prop
  -- The new slot has a serial, which is there already or put on top.
  | .push _ => t.entries.size < HandleId.capacity →
      t.entries.size < t.serials.size ∨ t.entries.size = t.serials.size
  -- Beside an entry that is read there is a serial.
  | .get h => h.index.toNat < t.entries.size → h.index.toNat < t.serials.size
  | .openScope => True
  -- What is popped is a slice of the entries, and there are serials beside it.
  | .closeScope mark => (∃ popped u, t.closeScope mark = (.ok popped, u)) →
      mark.start ≤ t.entries.size ∧ t.entries.size ≤ t.serials.size
  | .drain => t.entries.size ≤ t.serials.size

/-- What is known of an entry: its handle, its content, and how often its slot had been retired when it
was pushed. -/
structure Issue where
  handle : HandleId
  content : Binding
  retired : ℕ

/-- The slot of the entry. -/
def Issue.slot (e : Issue) : ℕ := e.handle.index.toNat

/-- A table, the stack that went through the same operations, and what happened to the table. -/
structure Log where
  table : HandleTable
  stack : ScopeStack
  /-- The entries that were pushed, the oldest first. The number of an entry is its place here. -/
  issued : List Issue
  /-- How often each slot was retired. -/
  retired : ℕ → ℕ

namespace Log

def start (isolate : IsolateId) : Log := ⟨HandleTable.empty isolate, .empty, [], fun _ => 0⟩

/-- The slots that a table has lost are retired. -/
def retiring (l : Log) (u : HandleTable) (slot : ℕ) : ℕ :=
  if u.entries.size ≤ slot ∧ slot < l.table.entries.size then l.retired slot + 1 else l.retired slot

/-- An operation on the table and on the stack. Each decides by itself whether a scope closes. -/
def perform (l : Log) : Operation → Log
  | .push content =>
    match HandleTable.push content l.table with
    | .ok h u =>
      { l with
        table := u
        stack := l.stack.push l.issued.length
        issued := l.issued ++ [⟨h, content, l.retired h.index.toNat⟩] }
    | .error _ u => { l with table := u }
  | .get _ => l
  | .openScope => { l with table := l.table.openScope.2, stack := l.stack.opened }
  | .closeScope mark =>
    let u := (l.table.closeScope mark).2
    { l with
      table := u
      stack := ((l.stack.close? mark).map Prod.snd).getD l.stack
      retired := l.retiring u }
  | .drain => { l with table := l.table.drain.2, stack := .empty, retired := l.retiring l.table.drain.2 }

/-- The content of the entry of a number. -/
def content? (l : Log) (number : ℕ) : Option Binding := l.issued[number]?.map (·.content)

/-- The table does as the stack of scopes says. -/
structure Refines (isolate : IsolateId) (l : Log) : Prop where
  /-- The handle of an entry leads to it while it is on the stack. Afterwards it leads to nothing, whatever
  else its slot has come to hold, until the slot was retired as often as there are serials. -/
  get : ∀ (number : ℕ) (e : Issue), l.issued[number]? = some e → l.retired e.slot < e.retired + 65536 →
    l.table.get e.handle =
      if number ∈ l.stack.live then .ok e.content else .error (.invalidHandle e.handle)
  /-- Entries on the stack at one time have handles of their own. -/
  distinct : ∀ number ∈ l.stack.live, ∀ other ∈ l.stack.live, ∀ e e' : Issue,
    l.issued[number]? = some e → l.issued[other]? = some e' → e.handle = e'.handle → number = other
  /-- A handle with the tag of another isolate is none of the table's. -/
  foreign : ∀ h : HandleId, h.isolate ≠ isolate.tag →
    l.table.get h = .error (.wrongIsolate isolate ⟨h.isolate.toNat⟩)
  /-- The table holds what is on the stack. -/
  entries : l.table.entries.toList.map some = l.stack.live.map l.content?
  /-- A scope is opened with the depth and the start that it has on the stack. -/
  opens : l.table.openScope.1 = l.stack.opened.mark
  /-- The depth and the start of the innermost scope close it. This pops what it owned, in the order in
  which it was pushed, and leaves the rest. -/
  closes : ∀ (mark : ScopeMark) (owned : List ℕ) (rest : ScopeStack),
    l.stack.close? mark = some (owned, rest) →
    ∃ popped u, l.table.closeScope mark = (.ok popped, u) ∧
      popped.toList.map some = owned.map l.content? ∧
      u.entries.toList.map some = rest.live.map l.content?
  /-- Nothing else closes a scope or does anything. -/
  mismatch : ∀ mark : ScopeMark, l.stack.close? mark = none →
    l.table.closeScope mark = (.error .scopeMismatch, l.table)
  /-- Draining pops all that is on the stack, the newest first. -/
  drains : l.table.drain.1.toList.map some = l.stack.live.reverse.map l.content?
  /-- No operation reaches out of the table. -/
  bounds : ∀ op : Operation, l.table.InBounds op

/-- A table as the stack beside it describes it. -/
structure Matches (isolate : IsolateId) (l : Log) : Prop where
  own : l.table.isolate = isolate
  scopes : l.table.scopes = ScopeStack.starts l.stack.outer
  entries : l.table.entries.toList.map some = l.stack.live.map l.content?
  fitted : l.table.Fitted
  room : l.table.entries.size ≤ HandleId.capacity
  /-- A serial counts how often its slot was retired. -/
  serials : ∀ slot < l.table.serials.size, l.table.serials[slot]? = some (BitVec.ofNat 16 (l.retired slot))
  unused : ∀ slot, l.table.serials.size ≤ slot → l.retired slot = 0
  issued : ∀ e ∈ l.issued, e.handle.isolate = isolate.tag ∧
    e.handle.serial = BitVec.ofNat 16 e.retired ∧ e.slot < l.table.serials.size
  /-- The entry at a height of the stack is the last that its slot was given. -/
  placed : ∀ (slot number : ℕ), l.stack.live[slot]? = some number →
    ∃ e, l.issued[number]? = some e ∧ e.slot = slot ∧ e.retired = l.retired slot
  /-- The slot of an entry that is gone was retired since. -/
  gone : ∀ (number : ℕ) (e : Issue), l.issued[number]? = some e → number ∉ l.stack.live →
    e.retired < l.retired e.slot

variable {isolate : IsolateId} {l : Log} {content : Binding} {mark : ScopeMark} {owned : List ℕ}
  {rest : ScopeStack}

theorem matches_start (isolate : IsolateId) : (start isolate).Matches isolate where
  own := rfl
  scopes := rfl
  entries := rfl
  fitted := Nat.zero_le _
  room := Nat.zero_le _
  serials _ hslot := absurd hslot (Nat.not_lt_zero _)
  unused _ _ := rfl
  issued _ he := nomatch he
  placed _ _ hlive := nomatch hlive
  gone _ _ he := nomatch he

namespace Matches

theorem length_live (h : l.Matches isolate) : l.stack.live.length = l.table.entries.size := by
  have hlength := congrArg List.length h.entries
  rw [List.length_map, List.length_map, Array.length_toList] at hlength
  exact hlength.symm

/-- What is on the stack was pushed. -/
theorem lt_of_mem (h : l.Matches isolate) {number : ℕ} (hlive : number ∈ l.stack.live) :
    number < l.issued.length := by
  obtain ⟨slot, hslot⟩ := List.mem_iff_getElem?.1 hlive
  obtain ⟨e, he, -⟩ := h.placed slot number hslot
  exact (List.getElem?_eq_some_iff.1 he).1

/-- A further entry leaves the others their contents. -/
theorem map_content?_append (h : l.Matches isolate) (e : Issue) (l' : Log) (hl' : l'.issued = l.issued ++ [e]) :
    l.stack.live.map l'.content? = l.stack.live.map l.content? := by
  apply List.map_congr_left
  intro number hlive
  change l'.issued[number]?.map (·.content) = l.issued[number]?.map (·.content)
  rw [hl', List.getElem?_append_left (h.lt_of_mem hlive)]

theorem size_le (h : l.Matches isolate) {start : ℕ} (hstart : start ∈ l.table.scopes) :
    start ≤ l.table.entries.size := by
  rw [h.scopes] at hstart
  have hlength := h.length_live
  have hle := ScopeStack.le_of_mem_starts hstart
  omega

/-- The serials after a push: the new slot keeps its serial, also where the slot was never used. -/
theorem serial_pushed (h : l.Matches isolate) (content : Binding) (slot : ℕ) :
    (l.table.pushed content).serials[slot]? =
      if slot = l.table.entries.size then some (BitVec.ofNat 16 (l.retired slot))
      else l.table.serials[slot]? := by
  have hfitted : l.table.entries.size ≤ l.table.serials.size := h.fitted
  change (if l.table.entries.size < l.table.serials.size then l.table.serials
    else l.table.serials.push 0)[slot]? = _
  by_cases hold : l.table.entries.size < l.table.serials.size
  · rw [if_pos hold]
    by_cases hslot : slot = l.table.entries.size
    · rw [if_pos hslot, hslot]
      exact h.serials _ hold
    · rw [if_neg hslot]
  · have hsize : l.table.serials.size = l.table.entries.size := by omega
    rw [if_neg hold, Array.getElem?_push, hsize]
    by_cases hslot : slot = l.table.entries.size
    · rw [if_pos hslot, if_pos hslot, h.unused slot (by omega)]
      rfl
    · rw [if_neg hslot, if_neg hslot]

theorem size_serials_pushed (h : l.Matches isolate) (content : Binding) :
    (l.table.pushed content).serials.size = max l.table.serials.size (l.table.entries.size + 1) := by
  have hfitted : l.table.entries.size ≤ l.table.serials.size := h.fitted
  change (if l.table.entries.size < l.table.serials.size then l.table.serials
    else l.table.serials.push 0).size = _
  split
  · omega
  · rw [Array.size_push]
    omega

/-- The handle of the next entry is of the slot on top, at its serial. -/
theorem nextId_eq (h : l.Matches isolate) (hroom : l.table.entries.size < HandleId.capacity) :
    l.table.nextId.index.toNat = l.table.entries.size ∧
      l.table.nextId.serial = BitVec.ofNat 16 (l.retired l.table.entries.size) := by
  refine ⟨?_, ?_⟩
  · rw [HandleTable.nextId, BitVec.toNat_ofNat]
    exact Nat.mod_eq_of_lt hroom
  · change l.table.serials[l.table.entries.size]?.getD 0 = _
    by_cases hold : l.table.entries.size < l.table.serials.size
    · rw [h.serials _ hold]
      rfl
    · rw [Array.getElem?_eq_none (Nat.le_of_not_lt hold), h.unused _ (Nat.le_of_not_lt hold)]
      rfl

/-- A push puts an entry on the stack, and its slot and the serial of that into a handle. -/
theorem pushed (h : l.Matches isolate) (hroom : l.table.entries.size < HandleId.capacity) :
    Matches isolate
      { l with
        table := l.table.pushed content
        stack := l.stack.push l.issued.length
        issued := l.issued ++ [⟨l.table.nextId, content, l.retired l.table.nextId.index.toNat⟩] } := by
  obtain ⟨hindex, hserial⟩ := h.nextId_eq hroom
  have hsize := h.size_serials_pushed content
  have hlive := h.length_live
  have hfitted : l.table.entries.size ≤ l.table.serials.size := h.fitted
  refine
    { own := h.own
      scopes := h.scopes
      fitted := (grown_pushed l.table content).fitted h.fitted
      entries := ?entries
      room := ?room
      serials := ?serials
      unused := ?unused
      issued := ?issued
      placed := ?placed
      gone := ?gone }
  case entries =>
    rw [ScopeStack.live_push, List.map_append, h.map_content?_append _ _ rfl, ← h.entries]
    change (l.table.entries.push content).toList.map some = _
    rw [Array.toList_push, List.map_append]
    congr 1
    simp [content?]
  case room =>
    change (l.table.entries.push content).size ≤ HandleId.capacity
    rw [Array.size_push]
    exact hroom
  case serials =>
    intro slot hslot
    change (l.table.pushed content).serials[slot]? = some (BitVec.ofNat 16 (l.retired slot))
    rw [h.serial_pushed]
    split
    · rfl
    · have hslot : slot < (l.table.pushed content).serials.size := hslot
      exact h.serials slot (by omega)
  case unused =>
    intro slot hslot
    have hslot : (l.table.pushed content).serials.size ≤ slot := hslot
    exact h.unused slot (by omega)
  case issued =>
    intro e he
    rw [hsize]
    rcases List.mem_append.1 he with he | he
    · obtain ⟨htag, hcount, hslot⟩ := h.issued e he
      exact ⟨htag, hcount, by omega⟩
    · cases List.mem_singleton.1 he
      have hslot : Issue.slot ⟨l.table.nextId, content, l.retired l.table.nextId.index.toNat⟩ =
        l.table.entries.size := hindex
      refine ⟨congrArg IsolateId.tag h.own, ?_, by omega⟩
      rw [hserial, hindex]
  case placed =>
    intro slot number hslot
    rw [ScopeStack.live_push] at hslot
    by_cases hlow : slot < l.stack.live.length
    · rw [List.getElem?_append_left hlow] at hslot
      obtain ⟨e, he, hplace⟩ := h.placed slot number hslot
      refine ⟨e, ?_, hplace⟩
      rw [List.getElem?_append_left (List.getElem?_eq_some_iff.1 he).1]
      exact he
    · -- the top of the stack is the new entry
      rw [List.getElem?_append_right (Nat.le_of_not_lt hlow), List.getElem?_singleton] at hslot
      split at hslot
      · cases hslot
        have hslot : l.table.nextId.index.toNat = slot := by omega
        exact ⟨_, List.getElem?_concat_length, hslot, congrArg l.retired hslot⟩
      · cases hslot
  case gone =>
    intro number e he hgone
    rw [ScopeStack.live_push] at hgone
    by_cases hold : number < l.issued.length
    · rw [List.getElem?_append_left hold] at he
      exact h.gone number e he fun hlive => hgone (List.mem_append_left _ hlive)
    · -- the new entry is on the stack
      have hlast : number < (l.issued ++ [_]).length := (List.getElem?_eq_some_iff.1 he).1
      rw [List.length_append, List.length_singleton] at hlast
      have hnumber : number = l.issued.length := by omega
      exact absurd (List.mem_append_right _ (List.mem_singleton.2 hnumber)) hgone

/-- Popping the entries above a height retires their slots and leaves the rest of the stack. -/
theorem shrunk (h : l.Matches isolate) {start : ℕ} (stack : ScopeStack)
    (hstart : start ≤ l.table.entries.size) (hlive : stack.live = l.stack.live.take start) :
    let u := { l.table.shrink start with scopes := ScopeStack.starts stack.outer }
    Matches isolate { l with table := u, stack := stack, retired := l.retiring u } := by
  intro u
  have hheight : u.entries.size = start := by
    change (l.table.entries.shrink start).size = start
    rw [Array.size_shrink]
    omega
  have hsize : u.serials.size = l.table.serials.size := size_retire _ _ _
  have hretiring : ∀ slot, l.retiring u slot =
      if start ≤ slot ∧ slot < l.table.entries.size then l.retired slot + 1 else l.retired slot := by
    intro slot
    rw [retiring, hheight]
  have hle : ∀ slot, l.retired slot ≤ l.retiring u slot := by
    intro slot
    rw [hretiring]
    split <;> omega
  refine
    { own := h.own
      scopes := rfl
      entries := ?entries
      fitted := ?fitted
      room := ?room
      serials := ?serials
      unused := ?unused
      issued := ?issued
      placed := ?placed
      gone := ?gone }
  case entries =>
    change (l.table.entries.shrink start).toList.map some = stack.live.map l.content?
    rw [hlive, List.map_take, ← h.entries, ← List.map_take, Array.toList_shrink]
  case fitted =>
    have hfitted : l.table.entries.size ≤ l.table.serials.size := h.fitted
    change u.entries.size ≤ u.serials.size
    omega
  case room =>
    have hroom := h.room
    change u.entries.size ≤ HandleId.capacity
    omega
  case serials =>
    intro slot hslot
    change (retire l.table.serials start (l.table.entries.size - start))[slot]? =
      some (BitVec.ofNat 16 (l.retiring u slot))
    have hslots : (start ≤ slot ∧ slot < start + (l.table.entries.size - start)) ↔
        start ≤ slot ∧ slot < l.table.entries.size := by omega
    rw [getElem?_retire, h.serials slot (hsize ▸ hslot), hretiring]
    simp only [hslots]
    split
    · rw [BitVec.ofNat_add]
      rfl
    · rfl
  case unused =>
    intro slot hslot
    have hfitted : l.table.entries.size ≤ l.table.serials.size := h.fitted
    have hslot : u.serials.size ≤ slot := hslot
    change l.retiring u slot = 0
    rw [hretiring, if_neg (by omega)]
    exact h.unused slot (hsize ▸ hslot)
  case issued =>
    intro e he
    change _ ∧ _ ∧ e.slot < u.serials.size
    rw [hsize]
    exact h.issued e he
  case placed =>
    intro slot number hslot
    have hslot : stack.live[slot]? = some number := hslot
    rw [hlive, List.getElem?_take] at hslot
    split at hslot
    · obtain ⟨e, he, hplace, hcount⟩ := h.placed slot number hslot
      have hkept : l.retiring u slot = l.retired slot := by
        rw [hretiring, if_neg (by omega)]
      exact ⟨e, he, hplace, hcount.trans hkept.symm⟩
    · cases hslot
  case gone =>
    intro number e he hgone
    by_cases hmem : number ∈ l.stack.live
    · -- the entry lay above the height, so its slot is retired now
      obtain ⟨slot, hslot⟩ := List.mem_iff_getElem?.1 hmem
      obtain ⟨e', he', hplace, hcount⟩ := h.placed slot number hslot
      cases Option.some.inj (he'.symm.trans he)
      have hbelow : slot < l.table.entries.size := by
        rw [← h.length_live]
        exact (List.getElem?_eq_some_iff.1 hslot).1
      have habove : start ≤ slot := by
        by_contra hlow
        have hkept : stack.live[slot]? = some number := by
          rw [hlive, List.getElem?_take_of_lt (Nat.lt_of_not_le hlow)]
          exact hslot
        exact hgone (List.mem_of_getElem? hkept)
      change e.retired < l.retiring u e.slot
      rw [hplace, hretiring, if_pos ⟨habove, hbelow⟩]
      omega
    · exact (h.gone number e he hmem).trans_le (hle e.slot)

/-- The table closes a scope by the mark by which the stack does. -/
theorem closeScope_eq (h : l.Matches isolate) (hc : l.stack.close? mark = some (owned, rest)) :
    l.table.closeScope mark =
      (.ok (l.table.entries.extract mark.start),
        { l.table.shrink mark.start with scopes := ScopeStack.starts rest.outer }) := by
  obtain ⟨hmark, -, houter⟩ := ScopeStack.close?_eq_some_iff.1 hc
  have hscopes : l.table.scopes = rest.live.length :: ScopeStack.starts rest.outer := by
    rw [h.scopes, ScopeStack.starts_outer houter]
  have hsame : mark = ⟨(ScopeStack.starts rest.outer).length + 1, rest.live.length⟩ := by
    rw [hmark, ScopeStack.mark, ScopeStack.length_starts, ScopeStack.under_eq_of_outer houter, houter,
      List.length_cons]
  unfold HandleTable.closeScope
  rw [hscopes]
  refine (if_pos hsame).trans ?_
  rw [hsame]

theorem closeScope_mismatch (h : l.Matches isolate) (hc : l.stack.close? mark = none) :
    l.table.closeScope mark = (.error .scopeMismatch, l.table) := by
  unfold HandleTable.closeScope
  cases houter : l.stack.outer with
  | nil =>
    rw [h.scopes, houter]
    rfl
  | cons level levels =>
    have hunder : l.stack.under = (⟨level, levels⟩ : ScopeStack).live :=
      ScopeStack.under_eq_of_outer houter
    have hother : mark ≠ l.stack.mark := by
      intro hmark
      have hsome := ScopeStack.close?_eq_some_iff.2
        ⟨hmark, rfl, (show l.stack.outer = (⟨level, levels⟩ : ScopeStack).owned ::
          (⟨level, levels⟩ : ScopeStack).outer from houter)⟩
      rw [hc] at hsome
      cases hsome
    rw [h.scopes, houter, ScopeStack.starts]
    apply if_neg
    intro hmark
    apply hother
    rw [hmark, ScopeStack.mark, ScopeStack.length_starts, hunder, houter, List.length_cons]

/-- The entries above the start of the innermost scope are those that it owns. -/
theorem live_take (hc : l.stack.close? mark = some (owned, rest)) :
    l.stack.live = rest.live ++ owned ∧ mark.start = rest.live.length := by
  obtain ⟨hmark, howned, houter⟩ := ScopeStack.close?_eq_some_iff.1 hc
  have hunder := ScopeStack.under_eq_of_outer houter
  refine ⟨?_, ?_⟩
  · rw [ScopeStack.live, hunder, howned]
  · rw [hmark, ← hunder]
    rfl

/-- What one operation does keeps the table as the stack describes it. -/
theorem perform (h : l.Matches isolate) (op : Operation) : (l.perform op).Matches isolate := by
  cases op with
  | push content =>
    by_cases hroom : l.table.entries.size < HandleId.capacity
    · have hpush : HandleTable.push content l.table = .ok l.table.nextId (l.table.pushed content) :=
        if_pos hroom
      rw [Log.perform, hpush]
      exact h.pushed hroom
    · have hpush : HandleTable.push content l.table = .error .tableFull l.table := if_neg hroom
      rw [Log.perform, hpush]
      exact h
  | get _ => exact h
  | openScope =>
    have hlength : l.table.entries.size = l.stack.live.length := h.length_live.symm
    refine ⟨h.own, ?_, ?_, h.fitted, h.room, h.serials, h.unused, h.issued, ?_, ?_⟩
    · change l.table.entries.size :: l.table.scopes = ScopeStack.starts (l.stack.owned :: l.stack.outer)
      rw [ScopeStack.starts, hlength, h.scopes]
    · change l.table.entries.toList.map some = l.stack.opened.live.map l.content?
      rw [ScopeStack.live_opened]
      exact h.entries
    · intro slot number hslot
      have hslot : l.stack.opened.live[slot]? = some number := hslot
      rw [ScopeStack.live_opened] at hslot
      exact h.placed slot number hslot
    · intro number e he hgone
      have hgone : number ∉ l.stack.opened.live := hgone
      rw [ScopeStack.live_opened] at hgone
      exact h.gone number e he hgone
  | closeScope mark =>
    cases hc : l.stack.close? mark with
    | none =>
      have hsame : l.retiring l.table = l.retired := by
        funext slot
        exact if_neg (by omega)
      rw [Log.perform, h.closeScope_mismatch hc, hc]
      change Matches isolate { l with retired := l.retiring l.table }
      rw [hsame]
      exact h
    | some closed =>
      obtain ⟨owned, rest⟩ := closed
      obtain ⟨hlive, hstart⟩ := live_take hc
      have hlength := h.length_live
      rw [hlive, List.length_append] at hlength
      rw [Log.perform, h.closeScope_eq hc, hc]
      refine h.shrunk rest (by omega) ?_
      rw [hlive, hstart, List.take_left]
  | drain =>
    refine h.shrunk .empty (Nat.zero_le _) ?_
    rw [List.take_zero]
    rfl

/-- The table does as the stack says. -/
theorem refines (h : l.Matches isolate) : l.Refines isolate where
  get number e he hround := by
    obtain ⟨htag, hserial, hslot⟩ := h.issued e (List.mem_of_getElem? he)
    have htag : e.handle.isolate = l.table.isolate.tag := by rw [htag, h.own]
    have hcount := h.serials e.slot hslot
    by_cases hlive : number ∈ l.stack.live
    · rw [if_pos hlive]
      obtain ⟨slot, hplace⟩ := List.mem_iff_getElem?.1 hlive
      obtain ⟨e', he', hindex, hlast⟩ := h.placed slot number hplace
      cases Option.some.inj (he'.symm.trans he)
      have hentry : l.table.entries.toList[slot]?.map some = some (l.content? number) := by
        rw [← List.getElem?_map, h.entries, List.getElem?_map, hplace]
        rfl
      rw [content?, he] at hentry
      refine get_eq_ok_iff.2 ⟨htag, ?_, ?_⟩
      · change l.table.entries[e.slot]? = some e.content
        rw [hindex, ← Array.getElem?_toList]
        exact Option.map_injective (fun _ _ => Option.some.inj) hentry
      · rw [hserial, hlast, ← hindex]
        exact hcount
    · rw [if_neg hlive]
      have hgone := h.gone number e he hlive
      have hsum : e.retired + (l.retired e.slot - e.retired) = l.retired e.slot := by omega
      have hmoved : l.table.serials[e.slot]? =
          some (e.handle.serial + BitVec.ofNat 16 (l.retired e.slot - e.retired)) := by
        rw [hserial, ← BitVec.ofNat_add, hsum]
        exact hcount
      exact get_eq_invalid htag hmoved (by omega) (by omega)
  distinct number hnumber other hother e e' he he' hsame := by
    obtain ⟨slot, hslot⟩ := List.mem_iff_getElem?.1 hnumber
    obtain ⟨slot', hslot'⟩ := List.mem_iff_getElem?.1 hother
    obtain ⟨a, ha, hplace, -⟩ := h.placed slot number hslot
    obtain ⟨a', ha', hplace', -⟩ := h.placed slot' other hslot'
    cases Option.some.inj (ha.symm.trans he)
    cases Option.some.inj (ha'.symm.trans he')
    -- equal handles are of one slot, and one entry lies at each height
    have hheight : slot = slot' := by rw [← hplace, ← hplace', Issue.slot, Issue.slot, hsame]
    rw [hheight, hslot'] at hslot
    exact (Option.some.inj hslot).symm
  foreign handle hother := by
    have hother : handle.isolate ≠ l.table.isolate.tag := by rwa [h.own]
    unfold HandleTable.get
    rw [if_neg hother, h.own]
  entries := h.entries
  opens := by
    change (⟨(l.table.entries.size :: l.table.scopes).length, l.table.entries.size⟩ : ScopeMark) =
      l.stack.opened.mark
    rw [ScopeStack.mark, ScopeStack.under_opened, h.length_live, h.scopes, List.length_cons,
      ScopeStack.length_starts]
    rfl
  closes mark owned rest hc := by
    obtain ⟨hlive, hstart⟩ := live_take hc
    refine ⟨_, _, h.closeScope_eq hc, ?_, ?_⟩
    · rw [Array.toList_extract, List.extract_eq_take_drop, List.take_of_length_le (by simp), List.map_drop,
        h.entries, hlive, List.map_append, hstart, ← List.length_map, List.drop_left]
    · change (l.table.entries.shrink mark.start).toList.map some = rest.live.map l.content?
      rw [Array.toList_shrink, List.map_take, h.entries, hlive, List.map_append, hstart, ← List.length_map,
        List.take_left]
  mismatch mark hc := h.closeScope_mismatch hc
  drains := by
    change l.table.entries.reverse.toList.map some = _
    rw [Array.toList_reverse, List.map_reverse, h.entries, List.map_reverse]
  bounds op := by
    have hfitted : l.table.entries.size ≤ l.table.serials.size := h.fitted
    cases op with
    | push _ =>
      intro _
      omega
    | get handle =>
      intro hlt
      omega
    | openScope => exact trivial
    | closeScope mark =>
      rintro ⟨popped, u, hc⟩
      obtain ⟨hscopes, -⟩ := closeScope_ok hc
      refine ⟨h.size_le ?_, hfitted⟩
      rw [hscopes]
      exact List.mem_cons_self
    | drain => exact hfitted

end Matches

/-- What a run of operations makes of a table and a stack. -/
def performAll (l : Log) (ops : List Operation) : Log := ops.foldl perform l

theorem Matches.performAll (h : l.Matches isolate) (ops : List Operation) :
    (l.performAll ops).Matches isolate := by
  induction ops generalizing l with
  | nil => exact h
  | cons op ops ih => exact ih (h.perform op)

/-- Whatever is done to the empty table of an isolate, the table does as the stack of scopes says that went
through the same. -/
theorem stack_refined (isolate : IsolateId) (ops : List Operation) :
    ((start isolate).performAll ops).Refines isolate :=
  ((matches_start isolate).performAll ops).refines

/-- A handle from a scope that has closed leads to nothing, with another entry in its slot. -/
theorem stack_refined_reused :
    let first : Binding := ⟨⟨0⟩, ⟨1, 0⟩, .object⟩
    let second : Binding := ⟨⟨0⟩, ⟨2, 0⟩, .object⟩
    let l := (start ⟨0⟩).performAll [.openScope, .push first, .closeScope ⟨1, 0⟩, .push second]
    l.table.get ⟨0, 0, 0⟩ = .error (.invalidHandle ⟨0, 0, 0⟩) ∧ l.table.get ⟨0, 1, 0⟩ = .ok second := by
  intro first second l
  have hl : l.Refines ⟨0⟩ := stack_refined ⟨0⟩ _
  exact ⟨hl.get 0 ⟨⟨0, 0, 0⟩, first, 0⟩ rfl (by decide), hl.get 1 ⟨⟨0, 1, 0⟩, second, 1⟩ rfl (by decide)⟩

end Log

end HandleTable

end Promises
