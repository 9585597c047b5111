import HamlTree.CommandLine.Run
import HamlTree.Proofs.CommandItems
import HamlTree.Proofs.Dictionaries

/-!
# The options of a command line

The options that were given on a command line are those among its items (`CommandLine.pairs`). Each
of the two scopes has the options that it has taken up (`Scope.Takes.pairs_eq`), and only then the
two are put together. So what an accepted command line hands on is either all options that were
given or, when options stand both before the command and after it, those after it alone
(`CommandLine.noOptionLost_iff`): the ones before the command are lost.
-/

namespace HamlTree

namespace CommandLine

/-! ### Options among items -/

/-- The keys and values of the options among items, in order. -/
def pairs (its : List Item) : List (String × String) :=
  (its.filterMap Item.value?).filterMap fun value ↦ (pairOf value).toOption

theorem pairs_append (its more : List Item) : pairs (its ++ more) = pairs its ++ pairs more := by
  rw [pairs, List.filterMap_append, List.filterMap_append]
  rfl

/-- A scope that began with nothing has the options that it has taken up, which are all well
formed. -/
theorem Scope.Takes.pairs_eq {its : List Item} {s : Scope} (h : Takes {} its s)
    (hpending : s.pending = .nothing) :
    pairs its = s.options ∧ ∀ value, .option value ∈ its → ∃ pair, pairOf value = .ok pair := by
  have hnone : s.pendingItems = [] := by rw [pendingItems, hpending]
  have hvalues : (its.filterMap Item.value?).map pairOf = s.options.map .ok := by
    have hoptions := h.options
    rw [hnone] at hoptions
    exact hoptions.trans (List.append_nil _)
  constructor
  · have hfilter := congrArg (List.filterMap Except.toOption) hvalues
    rw [List.filterMap_map, List.filterMap_map] at hfilter
    exact hfilter.trans List.filterMap_some
  · intro value hmem
    have hpair : pairOf value ∈ s.options.map Except.ok := by
      rw [← hvalues]
      exact List.mem_map_of_mem (List.mem_filterMap.2 ⟨_, hmem, rfl⟩)
    obtain ⟨pair, -, heq⟩ := List.mem_map.1 hpair
    exact ⟨pair, heq.symm⟩

/-! ### Options that are lost -/

/-- No option that was given on a command line is lost: all of them are handed on in order, the keys
that are reported are theirs, each once, and each key has the last of its values. -/
structure NoOptionLost (args : List String) (i : Invocation) : Prop where
  /-- The options that are handed on are those that were given. -/
  options : i.options = pairs (items false args)
  /-- A key is reported when an option was given for it, -/
  reported : ∀ key, .ignoredOption key ∈ (Options.ofPairs i.options).events ↔
    key ∈ (pairs (items false args)).map (·.1)
  /-- and then once. -/
  once : (Options.ofPairs i.options).events.Nodup
  /-- A key has the last value that was given for it. -/
  last : ∀ key, (Options.ofPairs i.options).get? key =
    (pairs (items false args)).reverse.lookup key

/-- What is said of keys and values follows from the first condition. -/
theorem NoOptionLost.of_options {args : List String} {i : Invocation}
    (h : i.options = pairs (items false args)) : NoOptionLost args i := by
  have hkeys := Dictionary.pairwise_keys (Options.ofPairs i.options)
  refine ⟨h, fun key ↦ ?_, ?_, fun key ↦ ?_⟩
  · rw [← h, ← Dictionary.mem_keys_ofList]
    simp [Options.events, Options.ofPairs]
  · refine List.pairwise_map.2 (hkeys.imp fun hlt heq ↦ ?_)
    exact String.lt_irrefl _ (Event.ignoredOption.inj heq ▸ hlt)
  · rw [← h]
    exact Dictionary.get?_ofList i.options key

/-- **The options before the command are lost when there are options after it, and only then.** An
accepted command line has a command, and every option in it is well formed. The options that are
handed on are those after the command, or, if there are none, those before it. So no option is lost
exactly when all of them stand on one side of the command. -/
theorem noOptionLost_iff {args : List String} {i : Invocation}
    (h : Invocation.ofArgs args = .ok i) :
    (∃ command, items false args = beforeCommand args ++ .word command :: afterCommand args) ∧
      (∀ value, .option value ∈ items false args → ∃ pair, pairOf value = .ok pair) ∧
      i.options = (if pairs (afterCommand args) = [] then pairs (beforeCommand args)
        else pairs (afterCommand args)) ∧
      (NoOptionLost args i ↔ pairs (beforeCommand args) = [] ∨ pairs (afterCommand args) = []) := by
  obtain ⟨hitems, place, outer, inner, hunderstands⟩ := understands_of_ofArgs h
  obtain ⟨hpairs, hformed⟩ := hunderstands.before_takes.pairs_eq hunderstands.before_pending
  obtain ⟨hpairs', hformed'⟩ := hunderstands.after_takes.pairs_eq hunderstands.after_pending
  have hoptions := hunderstands.isOf.options
  rw [← hpairs, ← hpairs'] at hoptions
  simp only [List.isEmpty_iff] at hoptions
  have hall : pairs (items false args) =
      pairs (beforeCommand args) ++ pairs (afterCommand args) := by
    rw [hitems, pairs_append]
    rfl
  refine ⟨⟨_, hitems⟩, fun value hvalue ↦ ?_, hoptions, fun hkept ↦ ?_,
    fun hside ↦ .of_options ?_⟩
  · rw [hitems] at hvalue
    rcases List.mem_append.1 hvalue with hvalue | hvalue
    · exact hformed value hvalue
    · exact hformed' value ((List.mem_cons.1 hvalue).resolve_left (by simp))
  · have heq := hkept.options
    rw [hoptions, hall] at heq
    split at heq
    · next hempty => exact .inr hempty
    · exact .inl (List.self_eq_append_left.1 heq)
  · rw [hoptions, hall]
    rcases hside with hnil | hnil
    · rw [hnil, List.nil_append]
      split
      · next hempty => exact hempty.symm
      · rfl
    · rw [if_pos hnil, hnil, List.append_nil]

/-- Two options after the command and none before it are both kept, -/
theorem noOptionLost_after :
    NoOptionLost ["-v", "check", "-oa=1", "x", "--option=b=2"]
      ⟨.check, "x", true, [("a", "1"), ("b", "2")]⟩ := by
  have h : Invocation.ofArgs ["-v", "check", "-oa=1", "x", "--option=b=2"] =
      .ok ⟨.check, "x", true, [("a", "1"), ("b", "2")]⟩ := by decide +kernel
  exact (noOptionLost_iff h).2.2.2.2 (.inl (by decide +kernel))

/-- and one before the command is lost when there is another one after it. -/
theorem not_noOptionLost_both :
    ∃ i, Invocation.ofArgs ["-v", "-o", "a=1", "check", "x", "-o", "b=2"] = .ok i ∧
      pairs (items false ["-v", "-o", "a=1", "check", "x", "-o", "b=2"]) =
        [("a", "1"), ("b", "2")] ∧
      i.options = [("b", "2")] ∧
      ¬ NoOptionLost ["-v", "-o", "a=1", "check", "x", "-o", "b=2"] i := by
  have h : Invocation.ofArgs ["-v", "-o", "a=1", "check", "x", "-o", "b=2"] =
      .ok ⟨.check, "x", true, [("b", "2")]⟩ := by decide +kernel
  have hpairs : pairs (items false ["-v", "-o", "a=1", "check", "x", "-o", "b=2"]) =
      [("a", "1"), ("b", "2")] := by decide +kernel
  refine ⟨_, h, hpairs, rfl, fun hkept ↦ ?_⟩
  have heq := hkept.options
  rw [hpairs] at heq
  exact absurd heq (by decide)

end CommandLine

end HamlTree
