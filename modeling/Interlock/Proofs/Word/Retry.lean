import Mathlib.Data.List.Chain
import Interlock.Proofs.Word.Calls

/-!
# An update loop commits once, and goes on from what others left

Between an application of the update and the swap that follows it another writer may store. The
swap then finds that store. If it is the argument in use the swap commits all the same, otherwise
the loop applies the update to it and tries again. So the arguments of the update are the contents
at first and then the stores that defeated a swap, and no store is passed over.
-/

namespace Interlock

variable {w : Nat}

/-! ### Stores that defeat a swap -/

/-- The stores that defeat a swap, one after the other, while the update is in use on `x`. -/
def defeats : BitVec w → List (Option (BitVec w)) → List (BitVec w)
  | x, some s :: rest => if s = x then [] else s :: defeats s rest
  | _, _ => []

theorem defeats_some_self (x : BitVec w) (rest : List (Option (BitVec w))) :
    defeats x (some x :: rest) = [] :=
  if_pos rfl

theorem defeats_some_of_ne {s x : BitVec w} (h : s ≠ x) (rest : List (Option (BitVec w))) :
    defeats x (some s :: rest) = s :: defeats s rest :=
  if_neg h

theorem isChain_defeats (x : BitVec w) (stores : List (Option (BitVec w))) :
    (x :: defeats x stores).IsChain (· ≠ ·) := by
  induction stores generalizing x with
  | nil => exact List.isChain_singleton x
  | cons store rest ih =>
    cases store with
    | none => exact List.isChain_singleton x
    | some s =>
      by_cases h : s = x
      · subst h
        rw [defeats_some_self]
        exact List.isChain_singleton s
      · rw [defeats_some_of_ne h]
        exact List.isChain_cons_cons.mpr ⟨Ne.symm h, ih s⟩

/-- They are the first of the stores, and the next one is absent or the last argument. -/
theorem exists_after_defeats (x : BitVec w) (stores : List (Option (BitVec w))) :
    ∃ rest, stores = (defeats x stores).map some ++ rest ∧
      ∀ s, rest.head? = some (some s) → s = (defeats x stores).getLastD x := by
  induction stores generalizing x with
  | nil => exact ⟨[], rfl, nofun⟩
  | cons store rest ih =>
    cases store with
    | none => exact ⟨none :: rest, rfl, nofun⟩
    | some s =>
      by_cases h : s = x
      · subst h
        rw [defeats_some_self]
        refine ⟨some s :: rest, rfl, fun s' hs => ?_⟩
        exact (Option.some.inj (Option.some.inj hs)).symm
      · obtain ⟨left, hrest, hnext⟩ := ih s
        rw [defeats_some_of_ne h, List.getLastD_cons]
        exact ⟨left, congrArg (some s :: ·) hrest, hnext⟩

theorem length_defeats_le (x : BitVec w) (stores : List (Option (BitVec w))) :
    (defeats x stores).length ≤ stores.countP Option.isSome := by
  obtain ⟨rest, hrest, -⟩ := exists_after_defeats x stores
  have hall : ((defeats x stores).map some).countP Option.isSome = (defeats x stores).length := by
    rw [List.countP_map]
    exact List.countP_eq_length.mpr fun _ _ => rfl
  have hcount := congrArg (List.countP Option.isSome) hrest
  rw [List.countP_append, hall] at hcount
  omega

/-- No store that lands before a swap is passed over: it is the next argument, or it is equal to the
one in use. -/
theorem landed_of_defeats (x : BitVec w) (stores : List (Option (BitVec w))) (n : Nat)
    (s : BitVec w) (hn : n < (x :: defeats x stores).length) (hs : stores[n]? = some (some s)) :
    (x :: defeats x stores)[n + 1]? = some s ∨ (x :: defeats x stores)[n]? = some s := by
  induction stores generalizing x n with
  | nil => cases hs
  | cons store rest ih =>
    cases n with
    | zero =>
      cases hs
      by_cases h : s = x
      · exact .inr (congrArg some h.symm)
      · left
        rw [defeats_some_of_ne h]
        rfl
    | succ n =>
      cases store with
      | none => exact absurd hn (by simp [defeats])
      | some s' =>
        by_cases h : s' = x
        · subst h
          rw [defeats_some_self] at hn
          exact absurd hn (by simp)
        · rw [defeats_some_of_ne h] at hn ⊢
          exact ih s' n (Nat.lt_of_succ_lt_succ hn) hs

/-! ### Swaps -/

/-- An attempt to swap: what it expected, what it was to put there, and what it found. -/
structure Swap (w : Nat) where
  old : BitVec w
  new : BitVec w
  found : BitVec w
  deriving DecidableEq, Repr

def Swap.commits (s : Swap w) : Bool := s.found = s.old

def Instruction.swap? : Instruction w → Option (Swap w)
  | .access (.compareExchange old new) seen => some ⟨old, new, seen⟩
  | _ => none

/-- The swaps that an execution attempted, in order. -/
def Execution.swaps (e : Execution w) : List (Swap w) := e.instructions.filterMap Instruction.swap?

theorem Execution.arguments_eq (e : Execution w) : e.arguments = e.swaps.map Swap.old := by
  rw [arguments, swaps, List.map_filterMap]
  refine List.filterMap_congr fun i _ => ?_
  cases i with
  | check fence => rfl
  | access a seen => cases a <;> rfl

/-- The swaps of a loop whose update is in use on `x`, when the given stores defeat them. -/
def swapsAmid (f : BitVec w → BitVec w) : BitVec w → List (BitVec w) → List (Swap w)
  | x, [] => [⟨x, f x, x⟩]
  | x, s :: rest => ⟨x, f x, s⟩ :: swapsAmid f s rest

theorem map_old_swapsAmid (f : BitVec w → BitVec w) (x : BitVec w) (others : List (BitVec w)) :
    (swapsAmid f x others).map Swap.old = x :: others := by
  induction others generalizing x with
  | nil => rfl
  | cons s rest ih => rw [swapsAmid, List.map_cons, ih]

theorem swapsAmid_eq_append (f : BitVec w → BitVec w) {x : BitVec w} {others : List (BitVec w)}
    (h : (x :: others).IsChain (· ≠ ·)) :
    ∃ failed, swapsAmid f x others =
        failed ++ [⟨others.getLastD x, f (others.getLastD x), others.getLastD x⟩] ∧
      failed.length = others.length ∧ ∀ s ∈ failed, s.commits = false := by
  induction others generalizing x with
  | nil => exact ⟨[], rfl, rfl, nofun⟩
  | cons s rest ih =>
    obtain ⟨hne, hrest⟩ := List.isChain_cons_cons.mp h
    obtain ⟨failed, hswaps, hlen, hfailed⟩ := ih hrest
    refine ⟨⟨x, f x, s⟩ :: failed, ?_, congrArg (· + 1) hlen, ?_⟩
    · rw [swapsAmid, hswaps, List.getLastD_cons, List.cons_append]
    · intro swap hmem
      rcases List.mem_cons.mp hmem with rfl | hmem
      · exact decide_eq_false (Ne.symm hne)
      · exact hfailed swap hmem

/-- Each finds the store of its turn, or the argument in use if there is none. -/
theorem getElem?_swapsAmid (f : BitVec w → BitVec w) (x : BitVec w)
    (stores : List (Option (BitVec w))) (n : Nat) (a : BitVec w)
    (h : (x :: defeats x stores)[n]? = some a) :
    (swapsAmid f x (defeats x stores))[n]? = some ⟨a, f a, stores[n]?.join.getD a⟩ := by
  induction stores generalizing x n with
  | nil =>
    cases n with
    | zero =>
      cases h
      rfl
    | succ n => cases h
  | cons store rest ih =>
    cases store with
    | none =>
      cases n with
      | zero =>
        cases h
        rfl
      | succ n => cases h
    | some s =>
      by_cases hs : s = x
      · subst hs
        rw [defeats_some_self] at h ⊢
        cases n with
        | zero =>
          cases h
          rfl
        | succ n => cases h
      · rw [defeats_some_of_ne hs] at h ⊢
        cases n with
        | zero =>
          cases h
          rfl
        | succ n => exact ih s n h

/-! ### The execution of an update loop -/

def Swap.instructions (fenced : Bool) (s : Swap w) : List (Instruction w) :=
  [.access (.compareExchange s.old s.new) s.found, .check fenced]

theorem filterMap_swap?_instructions (fenced : Bool) (swaps : List (Swap w)) :
    (swaps.flatMap (Swap.instructions fenced)).filterMap Instruction.swap? = swaps := by
  induction swaps with
  | nil => rfl
  | cons s rest ih =>
    rw [List.flatMap_cons, List.filterMap_append, ih]
    rfl

theorem length_instructions (fenced : Bool) (swaps : List (Swap w)) :
    (swaps.flatMap (Swap.instructions fenced)).length = 2 * swaps.length := by
  induction swaps with
  | nil => rfl
  | cons s rest ih =>
    rw [List.flatMap_cons, List.length_append, ih, List.length_cons]
    simp only [Swap.instructions, List.length_cons, List.length_nil]
    omega

/-- The batches of a script whose stores land one before each swap, and none before a look at the
fence switch. -/
def beforeSwaps (stores : List (Option (BitVec w))) : List (List (Disturbance w)) :=
  stores.flatMap fun s => [s.toList.map .store, []]

theorem beforeSwaps_nil : beforeSwaps ([] : List (Option (BitVec w))) = [] := rfl

theorem beforeSwaps_cons (store : Option (BitVec w)) (rest : List (Option (BitVec w))) :
    beforeSwaps (store :: rest) = store.toList.map .store :: [] :: beforeSwaps rest := rfl

namespace Call

theorem amid_returned (script : List (List (Disturbance w))) (answer : Answer w) (m : Cell w) :
    (Call.returned answer).amid script m = ⟨answer, m, []⟩ := by
  cases script with
  | nil => exact finish_of_returned rfl
  | cons others script => rfl

theorem amid_of_next {c rest : Call w} {m n : Cell w} {i : Instruction w}
    (h : c.step m = .next i rest n) (script : List (List (Disturbance w))) :
    c.amid ([] :: script) m = (rest.amid script n).after i := by
  simp only [amid, List.foldl_nil, h]

theorem amid_of_returned {c : Call w} {m : Cell w} {answer : Answer w}
    (h : c.step m = .returned answer) (script : List (List (Disturbance w))) :
    c.amid ([] :: script) m = ⟨answer, m, []⟩ := by
  simp only [amid, List.foldl_nil, h]

/-- After the end of a script nobody interferes. -/
theorem amid_nil (c : Call w) (m : Cell w) : c.amid [] m = c.amid [[]] m := by
  cases h : c.step m with
  | returned answer =>
    rw [amid_of_returned h]
    exact finish_of_returned h
  | next i rest n =>
    rw [amid_of_next h]
    exact finish_of_next h

theorem amid_nil_nil (c : Call w) (m : Cell w) : c.amid [] m = c.amid [[], []] m := by
  rw [amid_nil]
  cases h : c.step m with
  | returned answer => rw [amid_of_returned h, amid_of_returned h]
  | next i rest n => rw [amid_of_next h, amid_of_next h, amid_nil]

theorem amid_check (next : Call w) (script : List (List (Disturbance w))) (m : Cell w) :
    (Call.check next).amid ([] :: script) m = (next.amid script m).after (.check m.fenced) :=
  amid_of_next rfl script

theorem amid_attempt (f : BitVec w → BitVec w) (current : BitVec w)
    (others : List (Disturbance w)) (script : List (List (Disturbance w))) (m n : Cell w)
    (h : others.foldl Cell.disturb m = n) :
    (Call.attempt f false current).amid (others :: script) m =
      ((Call.check (afterAttempt f false current n.contents)).amid script
        (n.access (.compareExchange current (f current)))).after
        (.access (.compareExchange current (f current)) n.contents) := by
  subst h
  rfl

/-- A swap that finds the argument commits, and the loop returns. -/
theorem amid_commits (f : BitVec w → BitVec w) (m : Cell w) (others : List (Disturbance w))
    (script : List (List (Disturbance w))) (h : others.foldl Cell.disturb m = m) :
    (Call.attempt f false m.contents).amid (others :: [] :: script) m =
      ⟨.value m.contents, { m with contents := f m.contents },
        Swap.instructions m.fenced ⟨m.contents, f m.contents, m.contents⟩⟩ := by
  rw [amid_attempt f m.contents others _ m m h, amid_check, afterAttempt, if_pos rfl,
    amid_returned, Cell.access, Access.effect, if_pos rfl]
  rfl

/-- A swap that finds anything else fails, and the loop goes on from what it found. -/
theorem amid_fails (f : BitVec w → BitVec w) {s : BitVec w} (m : Cell w)
    (script : List (List (Disturbance w))) (h : s ≠ m.contents) :
    (Call.attempt f false m.contents).amid ([.store s] :: [] :: script) m =
      (((Call.attempt f false s).amid script { m with contents := s }).after
        (.check m.fenced)).after (.access (.compareExchange m.contents (f m.contents)) s) := by
  rw [amid_attempt f m.contents [.store s] _ m { m with contents := s } rfl, amid_check,
    afterAttempt, if_neg h, Cell.access, Access.effect_compareExchange_of_ne h]
  rfl

theorem amid_stores (f : BitVec w → BitVec w) (stores : List (Option (BitVec w))) (m : Cell w) :
    (Call.attempt f false m.contents).amid (beforeSwaps stores) m =
      ⟨.value ((defeats m.contents stores).getLastD m.contents),
        { m with contents := f ((defeats m.contents stores).getLastD m.contents) },
        (swapsAmid f m.contents (defeats m.contents stores)).flatMap
          (Swap.instructions m.fenced)⟩ := by
  -- A turn uses up one store, whether it defeats the swap or not, and the loop goes on from it.
  induction stores generalizing m with
  | nil =>
    rw [beforeSwaps_nil, amid_nil_nil]
    exact amid_commits f m [] [] rfl
  | cons store rest ih =>
    rw [beforeSwaps_cons]
    cases store with
    | none => exact amid_commits f m [] _ rfl
    | some s =>
      by_cases h : s = m.contents
      · subst h
        rw [defeats_some_self]
        exact amid_commits f m [.store m.contents] _ rfl
      · have hrest := ih { m with contents := s }
        rw [defeats_some_of_ne h, List.getLastD_cons]
        refine (amid_fails f m _ h).trans ?_
        rw [hrest]
        rfl

end Call

theorem Op.updateAmid_eq (f : BitVec w → BitVec w) (stores : List (Option (BitVec w)))
    (m : Cell w) :
    Op.updateAmid f stores m =
      ⟨.value ((defeats m.contents stores).getLastD m.contents),
        { m with contents := f ((defeats m.contents stores).getLastD m.contents) },
        .access .load m.contents ::
          (swapsAmid f m.contents (defeats m.contents stores)).flatMap
            (Swap.instructions m.fenced)⟩ :=
  congrArg (Execution.after (.access .load m.contents)) (Call.amid_stores f stores m)

/-! ### Main result -/

/-- What an update loop did on `m` amid stores of which the `n`-th, if there is one, landed between
the `n`-th application of the update and the swap after it. -/
structure CommitsOnce (update : BitVec w → BitVec w) (stores : List (Option (BitVec w)))
    (m : Cell w) (e : Execution w) (others : List (BitVec w)) (v : BitVec w) : Prop where
  /-- The update was applied to the contents at first and then to other writers' stores. -/
  arguments : e.arguments = m.contents :: others
  /-- These are the scripted ones in order, up to the first that is absent or equal to the argument
  in use when it lands, -/
  scripted : ∃ rest, stores = others.map some ++ rest ∧ ∀ s, rest.head? = some (some s) → s = v
  /-- and each of them differed from the argument in use when it landed. -/
  differ : e.arguments.IsChain (· ≠ ·)
  /-- Each swap was to replace an argument, and found the store of its turn if there was one. -/
  swaps : ∀ (n : Nat) x, e.arguments[n]? = some x →
    e.swaps[n]? = some ⟨x, update x, stores[n]?.join.getD x⟩
  /-- A store that landed is the next argument or was equal to the one in use. -/
  landed : ∀ (n : Nat) s, n < e.arguments.length → stores[n]? = some (some s) →
    e.arguments[n + 1]? = some s ∨ e.arguments[n]? = some s
  /-- One swap committed, the last. -/
  once : ∃ failed, e.swaps = failed ++ [⟨v, update v, v⟩] ∧ ∀ s ∈ failed, s.commits = false
  /-- It answered its last argument and left the update of it. -/
  last : e.arguments.getLast? = some v
  answer : e.answer = .value v
  cell : e.cell = { m with contents := update v }
  /-- It tried again only after a swap that found another value, -/
  applications : e.arguments.length = 1 + e.swaps.countP fun s => !s.commits
  /-- which took a store each time. -/
  bounded : e.arguments.length ≤ 1 + stores.countP Option.isSome
  /-- It ended after a load and, for each application, a swap and a look at the fence switch. -/
  ended : e.instructions.length = 1 + 2 * e.arguments.length

/-- Whatever the others store, an update loop ends, commits once, and tries again only because of
them. -/
theorem update_commits_once (update : BitVec w → BitVec w) (stores : List (Option (BitVec w)))
    (m : Cell w) :
    ∃ others v, CommitsOnce update stores m (Op.updateAmid update stores m) others v := by
  have heq := Op.updateAmid_eq update stores m
  generalize Op.updateAmid update stores m = e at heq
  have hswaps : e.swaps = swapsAmid update m.contents (defeats m.contents stores) := by
    rw [heq]
    exact filterMap_swap?_instructions m.fenced _
  have hargs : e.arguments = m.contents :: defeats m.contents stores := by
    rw [e.arguments_eq, hswaps, map_old_swapsAmid]
  -- All but the last swap fail because every argument differs from the one before it.
  have hchain := isChain_defeats m.contents stores
  obtain ⟨failed, honce, hlen, hfailed⟩ := swapsAmid_eq_append update hchain
  refine ⟨defeats m.contents stores, (defeats m.contents stores).getLastD m.contents,
    hargs, exists_after_defeats m.contents stores, ?_, ?_, ?_, ?_, ?_, ?_, ?_, ?_, ?_, ?_⟩
  · rw [hargs]
    exact hchain
  · rw [hargs, hswaps]
    exact getElem?_swapsAmid update m.contents stores
  · rw [hargs]
    exact landed_of_defeats m.contents stores
  · exact ⟨failed, hswaps.trans honce, hfailed⟩
  · rw [hargs, List.getLast?_cons, List.getLastD_eq_getLast?]
  · rw [heq]
  · rw [heq]
  · have hcount : failed.countP (fun s => !s.commits) = failed.length :=
      List.countP_eq_length.mpr fun s hs => by rw [hfailed s hs]; rfl
    rw [hargs, hswaps, honce, List.countP_append, hcount, hlen]
    simp [Swap.commits, Nat.add_comm]
  · have hle := length_defeats_le m.contents stores
    rw [hargs, List.length_cons]
    omega
  · have hlength := congrArg List.length hargs
    rw [e.arguments_eq, List.length_map, hswaps] at hlength
    rw [hargs, heq, List.length_cons, length_instructions, hlength]
    omega

/-- A store that defeats a swap, one that is equal to the argument in use, and one too late. -/
def lateStores : List (Option (BitVec 32)) := [some 5, some 5, some 9]

theorem update_commits_once_late_stores :
    ∃ v, CommitsOnce (· * 7) lateStores { contents := 6 }
      (Op.updateAmid (· * 7) lateStores { contents := 6 }) [5] v := by
  obtain ⟨others, v, h⟩ := update_commits_once (· * 7) lateStores { contents := 6 }
  have hargs : (Op.updateAmid (· * 7) lateStores { contents := 6 }).arguments = [6, 5] := by
    decide +kernel
  have hothers : others = [5] := (List.cons.inj (h.arguments.symm.trans hargs)).2
  exact ⟨v, hothers ▸ h⟩

end Interlock
