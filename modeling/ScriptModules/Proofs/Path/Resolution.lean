import ScriptModules.Proofs.Path.Specifier

namespace ScriptModules.Path

open Text

def Inside (path : String) : Prop :=
  (∃ raw, normalize? raw = some path) ∧ ".." ∉ splitAt '/' path

variable {source target extension specifier : String}

theorem Inside.components {path : String} (inside : Inside path) :
    ∃ parts, (∀ c ∈ parts, Stays c ∧ Clean c) ∧ path = "./" ++ joinWith '/' parts := by
  obtain ⟨⟨raw, normal⟩, below⟩ := inside
  obtain ⟨parts, stay | up, rfl⟩ := normalize?_eq_some normal
  · exact ⟨parts, stay, rfl⟩
  · subst up
    exact absurd (by decide) below

theorem Inside.of_endsWith {path : String} (inside : Inside path)
    (pointed : startsWith extension "." = true) (free : '/' ∉ extension.toList)
    (ends : endsWith path extension = true) :
    ∃ parts, parts ≠ [] ∧ Resolved parts ∧ path = ofComponents parts := by
  obtain ⟨raw, normal⟩ := inside.1
  refine normal_of_normalize? normal ends free ?_
  rintro rfl
  exact absurd pointed (by decide)

theorem Inside.directory (inside : Inside source) : ∃ parts,
    (∀ c ∈ parts, Stays c ∧ Clean c) ∧ directory source = ofComponents parts ∧
      ∀ above, above ≠ [] → above <+: parts →
        startsWith source (ofComponents above ++ "/") = true := by
  obtain ⟨parts, stay, rfl⟩ := inside.components
  obtain rfl | ⟨front, name, rfl⟩ := List.eq_nil_or_concat parts
  · refine ⟨[], by simp, by decide, fun above filled within => ?_⟩
    exact absurd (List.prefix_nil.mp within) filled
  · rw [List.concat_eq_append] at stay ⊢
    rw [← ofComponents_eq (by simp)]
    obtain ⟨stay, start⟩ := directory_of_resolved (.inl stay)
    refine ⟨front, stay, start, fun above _ within => ?_⟩
    exact List.isPrefixOf_iff_prefix.mpr (ofComponents_isPrefix name within)

theorem specifier?_eq_some (source extension : String) (nonempty : target ≠ "") :
    ∃ specifier, specifier? source target extension = some specifier ∧
      (startsWith specifier "./" = true ∨ startsWith specifier "../" = true) := by
  have marked : ∀ stem : String,
      startsWith (if startsWith stem "../" then stem else "./" ++ stem) "./" = true ∨
        startsWith (if startsWith stem "../" then stem else "./" ++ stem) "../" = true := by
    intro stem
    split
    · rename_i up
      exact .inr up
    · apply Or.inl
      rw [startsWith, String.toList_append]
      exact List.isPrefixOf_iff_prefix.mpr (List.prefix_append _ _)
  rw [specifier?, if_neg nonempty]
  exact ⟨_, rfl, marked _⟩

theorem Inside.normalize? (inside : Inside source) (inside' : Inside target)
    (pointed : startsWith extension "." = true) (free : '/' ∉ extension.toList)
    (ends : endsWith target extension = true) (apart : startsWith source (target ++ "/") = false)
    (found : specifier? source target extension = some specifier) :
    normalize? (Path.directory source ++ "/" ++ specifier ++ extension) = some target := by
  obtain ⟨parts, stay, start, above⟩ := inside.directory
  obtain ⟨targetParts, filled, resolved, rfl⟩ := inside'.of_endsWith pointed free ends
  refine normalize?_of_directory stay start resolved (fun within => ?_) ends free found
  exact absurd (above targetParts filled within) (by rw [apart]; decide)

theorem specifiers_resolve (pointed : startsWith extension "." = true)
    (free : '/' ∉ extension.toList) (inside : Inside source) (inside' : Inside target)
    (ends : endsWith target extension = true) (apart : startsWith source (target ++ "/") = false) :
    ∃ specifier, specifier? source target extension = some specifier ∧
      (startsWith specifier "./" = true ∨ startsWith specifier "../" = true) ∧
      normalize? (directory source ++ "/" ++ (specifier ++ extension)) = some target ∧
      ∀ other, Inside other → endsWith other extension = true →
        startsWith source (other ++ "/") = false →
        specifier? source other extension = some specifier → other = target := by
  have resolves : ∀ {file specifier : String}, Inside file → endsWith file extension = true →
      startsWith source (file ++ "/") = false →
      specifier? source file extension = some specifier →
      normalize? (directory source ++ "/" ++ (specifier ++ extension)) = some file := by
    intro file specifier within ending off found
    rw [← String.append_assoc]
    exact inside.normalize? within pointed free ending off found
  obtain ⟨raw, normal⟩ := inside'.1
  obtain ⟨specifier, found, relative⟩ :=
    specifier?_eq_some source extension (ne_empty_of_normalize? normal)
  have back := resolves inside' ends apart found
  refine ⟨specifier, found, relative, back, fun other within ending off same => ?_⟩
  exact Option.some.inj ((resolves within ending off same).symm.trans back)

theorem inside_of_dots : Inside "./a/b/x.js" ∧ Inside "./a/...js" ∧ Inside "./a/b/....js" :=
  ⟨⟨⟨"a/b/x.js", by decide⟩, by decide⟩, ⟨⟨"a/...js", by decide⟩, by decide⟩,
    ⟨⟨"a/b/....js", by decide⟩, by decide⟩⟩

/-- Without its extension the name of the file reads like a step up. -/
theorem specifiers_resolve_dots :
    ∃ specifier, specifier? "./a/b/x.js" "./a/...js" ".js" = some specifier ∧
      specifier = "../.." ∧
      normalize? (directory "./a/b/x.js" ++ "/" ++ (specifier ++ ".js")) = some "./a/...js" ∧
      specifier? "./a/b/x.js" "./a/b/....js" ".js" ≠ some specifier := by
  obtain ⟨source, target, other⟩ := inside_of_dots
  have pointed : startsWith ".js" "." = true := by decide
  obtain ⟨specifier, found, -, back, unique⟩ :=
    specifiers_resolve pointed (by decide) source target (by decide) (by decide)
  refine ⟨specifier, found, ?_, back, fun same => ?_⟩
  · exact Option.some.inj (found.symm.trans (by decide))
  · exact absurd (unique _ other (by decide) (by decide) same) (by decide)

end ScriptModules.Path
