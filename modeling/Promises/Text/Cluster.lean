import Promises.Text.Joining

namespace Promises.Text

/-- Whether a cluster, last character first, ends in a picture with a joiner after it. -/
def awaitsPicture : List Char → Bool
  | last :: earlier =>
    joining last = .joiner &&
      ((earlier.dropWhile (joining · = .extend)).head?.any (joining · = .picture))
  | [] => false

/-- Whether a mark may stand between a consonant, its virama and the consonant that this joins. All
but U+200C may, which keeps them apart. -/
def isConjunctMark (c : Char) : Bool :=
  (joining c = .extend || joining c = .joiner) && c ≠ '\u200C'

/-- Whether a cluster, last character first, ends in a consonant with a virama after it. -/
def awaitsConsonant (cluster : List Char) : Bool :=
  let marks := cluster.takeWhile isConjunctMark
  marks.any (inRanges viramaRanges) &&
    (cluster.drop marks.length).head?.any (inRanges consonantRanges)

/-- Whether an odd number of flags ends a cluster, last character first. -/
def awaitsFlag (cluster : List Char) : Bool :=
  (cluster.takeWhile (joining · = .flag)).length % 2 = 1

/-- Whether a character joins the cluster before it, which is given last character first. -/
def joins (cluster : List Char) (c : Char) : Bool :=
  match cluster.head?.map joining, joining c with
  | none, _ => false
  | some .control, _ => false
  | _, .control => false
  | _, .extend => true
  | _, .joiner => true
  | _, .spacing => true
  | some .prepend, _ => true
  | some .lead, next => next = .lead || next = .vowel || next = .openSyllable || next = .closedSyllable
  | some .vowel, next => next = .vowel || next = .tail
  | some .openSyllable, next => next = .vowel || next = .tail
  | some .tail, next => next = .tail
  | some .closedSyllable, next => next = .tail
  | some .flag, .flag => awaitsFlag cluster
  | some .joiner, .picture => awaitsPicture cluster
  | some _, _ => awaitsConsonant cluster && inRanges consonantRanges c

/-- The clusters with one more character, all last first. -/
def addToClusters (clusters : List (List Char)) (c : Char) : List (List Char) :=
  match clusters with
  | cluster :: rest => if joins cluster c then (c :: cluster) :: rest else [c] :: cluster :: rest
  | [] => [[c]]

/-- The clusters of a text, the last one first, each with its last character first. -/
def clusters (cs : List Char) : List (List Char) := cs.foldl addToClusters []

theorem flatten_addToClusters (clusters : List (List Char)) (c : Char) :
    (addToClusters clusters c).flatten = c :: clusters.flatten := by
  unfold addToClusters
  split
  · split <;> rfl
  · rfl

theorem flatten_clusters (cs : List Char) : (clusters cs).flatten = cs.reverse := by
  suffices h : ∀ gs, (cs.foldl addToClusters gs).flatten = cs.reverse ++ gs.flatten by
    simpa [clusters] using h []
  induction cs with
  | nil => simp
  | cons c cs ih => intro gs; simp [ih, flatten_addToClusters]

/-- A text, last character first, without so many bytes at its end, if this cuts no character. -/
def dropBytes? : List Char → Nat → Option (List Char)
  | cs, 0 => some cs
  | [], _ + 1 => none
  | c :: cs, n + 1 =>
    if c.utf8Size ≤ n + 1 then dropBytes? cs (n + 1 - c.utf8Size) else none

/-- A line while it is entered. -/
structure Entry where
  /-- What stands in it, the last character first. -/
  text : List Char
  /-- How much a backspace takes back, in bytes: the size of each cluster, the last one first. A size
  is kept in eight bits. -/
  sizes : List UInt8

namespace Entry

def empty : Entry := ⟨[], []⟩

/-- Adds a cluster, last character first. -/
def add (e : Entry) (cluster : List Char) : Entry :=
  ⟨cluster ++ e.text, (String.ofList cluster).utf8ByteSize.toUInt8 :: e.sizes⟩

/-- Takes back the last cluster, if there is one. -/
def takeBack? (e : Entry) : Option Entry :=
  match e.sizes with
  | [] => some e
  | size :: sizes => (dropBytes? e.text size.toNat).map (⟨·, sizes⟩)

/-- Enters a cluster, which may be a backspace. -/
def enter? (e : Entry) (cluster : List Char) : Option Entry :=
  if cluster = ['\x08'] then e.takeBack? else some (e.add cluster)

end Entry

/-- A text after its backspaces have taken back what stands before them, unless one would cut a
character. -/
def eraseBack? (cs : List Char) : Option (List Char) :=
  ((clusters cs).reverse.foldlM Entry.enter? .empty).map (·.text.reverse)

theorem text_foldlM_enter? {gs : List (List Char)} (h : ['\x08'] ∉ gs) (e : Entry) :
    (gs.foldlM Entry.enter? e).map (·.text) = some (gs.reverse.flatten ++ e.text) := by
  induction gs generalizing e with
  | nil => rfl
  | cons g gs ih =>
    simp only [List.mem_cons, not_or] at h
    have hg : e.enter? g = some (e.add g) := if_neg (Ne.symm h.1)
    rw [List.foldlM_cons, hg, Option.bind_eq_bind, Option.bind_some, ih h.2]
    simp [Entry.add]

/-- A text without a backspace stays as it is. -/
theorem eraseBack?_of_notMem {cs : List Char} (h : '\x08' ∉ cs) : eraseBack? cs = some cs := by
  have hc : ['\x08'] ∉ (clusters cs).reverse := by
    intro hg
    have : '\x08' ∈ (clusters cs).flatten :=
      List.mem_flatten.mpr ⟨_, List.mem_reverse.mp hg, List.mem_singleton_self _⟩
    exact h (by simpa [flatten_clusters] using this)
  have ht := text_foldlM_enter? hc .empty
  rw [List.reverse_reverse, flatten_clusters, Entry.empty, List.append_nil] at ht
  obtain ⟨e, he, hr⟩ := Option.map_eq_some_iff.mp ht
  rw [eraseBack?, Entry.empty, he, Option.map_some, hr, List.reverse_reverse]

end Promises.Text
