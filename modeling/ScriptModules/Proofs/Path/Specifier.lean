import ScriptModules.Path.Corpus
import ScriptModules.Proofs.Text.Parts

/-!
# Specifiers

The text by which a file requires another leads back to the other: put behind the directory of the
first file and with the extension at its end, it is a path of the second
(`normalize?_of_specifier?`). This needs that the second file is no directory on the way to the
first, since the path between them is empty then.

A path in normal form is joined from its resolved components (`normalize?_eq_some`), and splitting
gives these back.
-/

namespace ScriptModules.Path

open Text

/-! ## Resolving components -/

structure Stays (component : String) : Prop where
  nonempty : component ≠ ""
  inner : component ≠ "."
  down : component ≠ ".."

theorem step_of_stays {component : String} (stays : Stays component) (absolute : Bool)
    (walked : List String) : step absolute walked component = component :: walked := by
  simp [step, stays.nonempty, stays.inner, stays.down]

theorem foldl_step_of_stays {components : List String} (stay : ∀ c ∈ components, Stays c)
    (absolute : Bool) (walked : List String) :
    components.foldl (step absolute) walked = components.reverse ++ walked := by
  induction components generalizing walked with
  | nil => rfl
  | cons c cs ih =>
      obtain ⟨first, stay⟩ := List.forall_mem_cons.mp stay
      rw [List.foldl_cons, step_of_stays first, ih stay, List.reverse_cons, List.append_assoc]
      rfl

theorem foldl_step_ups {components : List String} (stay : ∀ c ∈ components, Stays c)
    (absolute : Bool) (walked : List String) :
    (components.map fun _ => "..").foldl (step absolute) (components ++ walked) = walked := by
  induction components with
  | nil => rfl
  | cons c cs ih =>
      obtain ⟨first, stay⟩ := List.forall_mem_cons.mp stay
      rw [List.map_cons, List.foldl_cons, List.cons_append]
      have up : step absolute (c :: (cs ++ walked)) ".." = cs ++ walked := by
        simp [step, first.down]
      rw [up, ih stay]

theorem foldl_step_shape (components walked : List String) (Kept : String → Prop)
    (kept : ∀ c ∈ components, Kept c)
    (shape : ∃ ups down, walked = down ++ List.replicate ups ".." ∧
      ∀ c ∈ down, Stays c ∧ Kept c) :
    ∃ ups down, components.foldl (step false) walked = down ++ List.replicate ups ".." ∧
      ∀ c ∈ down, Stays c ∧ Kept c := by
  induction components generalizing walked with
  | nil => exact shape
  | cons c cs ih =>
      obtain ⟨first, kept⟩ := List.forall_mem_cons.mp kept
      obtain ⟨ups, down, rfl, stay⟩ := shape
      refine ih _ kept ?_
      by_cases none : c = "" ∨ c = "."
      · exact ⟨ups, down, by simp [step, none], stay⟩
      · obtain ⟨nonempty, inner⟩ := not_or.mp none
        by_cases up : c = ".."
        · subst up
          cases down with
          | nil =>
              refine ⟨ups + 1, [], ?_, stay⟩
              cases ups with
              | zero => rfl
              | succ ups => simp [step, List.replicate_succ]
          | cons last down =>
              obtain ⟨⟨last, -⟩, stay⟩ := List.forall_mem_cons.mp stay
              exact ⟨ups, down, by simp [step, last.down], stay⟩
        · have stays : Stays c := ⟨nonempty, inner, up⟩
          refine ⟨ups, c :: down, step_of_stays stays false _, ?_⟩
          exact List.forall_mem_cons.mpr ⟨⟨stays, first⟩, stay⟩

/-! ## Normal forms -/

def Clean (component : String) : Prop :=
  '/' ∉ component.toList ∧ '\\' ∉ component.toList

instance (component : String) : Decidable (Clean component) :=
  inferInstanceAs (Decidable (_ ∧ _))

/-- The components of a path in normal form. They all stay, or the path leads to the directory above
the corpus. -/
def Resolved (components : List String) : Prop :=
  (∀ c ∈ components, Stays c ∧ Clean c) ∨ components = [".."]

theorem Resolved.clean {components : List String} (resolved : Resolved components) :
    ∀ c ∈ components, Clean c := by
  rcases resolved with stay | rfl
  · exact fun c member => (stay c member).2
  · simp [Clean]

def ofComponents (components : List String) : String :=
  joinWith '/' ("." :: components)

theorem normalize?_eq_some {raw path : String} (normal : normalize? raw = some path) :
    ∃ components, Resolved components ∧ path = "./" ++ joinWith '/' components := by
  have pieces : ∀ c ∈ splitAt '/' (withSlashes raw), Clean c := by
    intro c member
    obtain ⟨piece, found, rfl⟩ := List.mem_map.mp member
    obtain ⟨free, within⟩ := not_mem_splitChars '/' _ piece found
    rw [Clean, String.toList_ofList]
    refine ⟨free, fun backslash => ?_⟩
    have backslash := within _ backslash
    rw [withSlashes, String.toList_ofList] at backslash
    obtain ⟨c, -, same⟩ := List.mem_map.mp backslash
    split at same
    · cases same
    · contradiction
  obtain ⟨ups, down, shape, stay⟩ :=
    foldl_step_shape _ [] Clean pieces ⟨0, [], rfl, by simp⟩
  unfold normalize? at normal
  dsimp only at normal
  split at normal
  · cases normal
  · rename_i relative
    rw [components, eq_false_of_ne_true relative, collapse, shape, List.reverse_append,
      List.reverse_replicate] at normal
    split at normal
    · cases normal
    · rename_i inside
      cases normal
      refine ⟨_, ?_, rfl⟩
      match ups with
      | 0 => exact .inl fun c member => stay c (by simpa using member)
      | 1 =>
          cases parts : down.reverse with
          | nil => exact .inr rfl
          | cons last rest => exact (inside last rest (by rw [parts]; rfl)).elim
      | ups + 2 => exact (inside ".." (List.replicate ups ".." ++ down.reverse) rfl).elim

theorem ne_empty_of_normalize? {raw path : String} (normal : normalize? raw = some path) :
    path ≠ "" := by
  obtain ⟨components, -, rfl⟩ := normalize?_eq_some normal
  simp

theorem ofComponents_eq {components : List String} (nonempty : components ≠ []) :
    ofComponents components = "./" ++ joinWith '/' components := by
  rw [ofComponents, show "." :: components = ["."] ++ components from rfl,
    joinWith_append (by simp) nonempty]
  rfl

theorem ofComponents_append (components : List String) {more : List String}
    (nonempty : more ≠ []) :
    ofComponents (components ++ more) = ofComponents components ++ "/" ++ joinWith '/' more := by
  rw [ofComponents, ← List.cons_append, joinWith_append (List.cons_ne_nil _ _) nonempty]
  rfl

theorem ofComponents_ne_empty (components : List String) : ofComponents components ≠ "" := by
  cases components with
  | nil => decide
  | cons c cs =>
      rw [ofComponents_eq (List.cons_ne_nil c cs)]
      simp

theorem isAbsolute_ofComponents (components : List String) :
    isAbsolute (ofComponents components) = false := by
  cases components with
  | nil => decide
  | cons c cs =>
      rw [ofComponents_eq (List.cons_ne_nil c cs)]
      simp [isAbsolute]

theorem splitAt_ofComponents {parts : List String} (clean : ∀ c ∈ parts, Clean c) :
    splitAt '/' (ofComponents parts) = "." :: parts := by
  refine splitAt_joinWith (List.cons_ne_nil _ _) (List.forall_mem_cons.mpr ⟨by decide, ?_⟩)
  exact fun c member => (clean c member).1

theorem components_ofComponents {parts : List String} (clean : ∀ c ∈ parts, Clean c) :
    components (ofComponents parts) = collapse false parts := by
  rw [components, isAbsolute_ofComponents, splitAt_ofComponents clean]
  rfl

theorem collapse_of_resolved {parts : List String} (resolved : Resolved parts) :
    collapse false parts = parts := by
  rcases resolved with stay | rfl
  · rw [collapse, foldl_step_of_stays fun c member => (stay c member).1]
    simp
  · rfl

theorem withSlashes_joinWith {parts : List String} (clean : ∀ c ∈ parts, Clean c) :
    withSlashes (joinWith '/' parts) = joinWith '/' parts := by
  have free : '\\' ∉ (joinWith '/' parts).toList := by
    intro member
    rw [joinWith, String.toList_ofList] at member
    obtain impossible | ⟨piece, found, within⟩ := mem_joinChars member
    · cases impossible
    · obtain ⟨c, part, rfl⟩ := List.mem_map.mp found
      exact (clean c part).2 within
  refine String.toList_inj.mp ?_
  rw [withSlashes, String.toList_ofList]
  refine (List.map_congr_left fun c member => ?_).trans (List.map_id _)
  refine if_neg ?_
  rintro rfl
  exact free member

theorem withSlashes_ofComponents {parts : List String} (clean : ∀ c ∈ parts, Clean c) :
    withSlashes (ofComponents parts) = ofComponents parts :=
  withSlashes_joinWith (List.forall_mem_cons.mpr ⟨by decide, clean⟩)

theorem normalize?_of_resolved {path : String} {parts : List String}
    (slashes : withSlashes path = path) (relative : isAbsolute path = false)
    (whole : components path = parts) (resolved : Resolved parts) :
    normalize? path = some ("./" ++ joinWith '/' parts) := by
  rw [normalize?, slashes, relative, whole]
  rcases resolved with stay | rfl
  · split
    · contradiction
    · split
      · exact absurd rfl (stay ".." List.mem_cons_self).1.down
      · rfl
  · rfl

theorem normalize?_ofComponents {parts resolved : List String} (clean : ∀ c ∈ parts, Clean c)
    (nonempty : resolved ≠ []) (fine : Resolved resolved)
    (same : collapse false parts = resolved) :
    normalize? (ofComponents parts) = some (ofComponents resolved) := by
  rw [ofComponents_eq nonempty]
  exact normalize?_of_resolved (withSlashes_ofComponents clean) (isAbsolute_ofComponents parts)
    ((components_ofComponents clean).trans same) fine

theorem directory_append_slash {head last : String} (free : '/' ∉ last.toList)
    (nonempty : head.toList ≠ []) (open' : head.toList.getLast? ≠ some '/') :
    directory (head ++ "/" ++ last) = head := by
  have split : (head ++ "/" ++ last).toList.reverse =
      last.toList.reverse ++ '/' :: head.toList.reverse := by
    simp
  have skip : ((head ++ "/" ++ last).toList.reverse.dropWhile (· != '/')) =
      '/' :: head.toList.reverse := by
    rw [split, List.dropWhile_append_of_pos]
    · rfl
    · intro c member
      simp only [bne_iff_ne, ne_eq]
      rintro rfl
      exact free (List.mem_reverse.mp member)
  have kept : ('/' :: head.toList.reverse).dropWhile (· == '/') = head.toList.reverse := by
    rw [List.dropWhile_cons_of_pos (by decide)]
    cases parts : head.toList.reverse with
    | nil => rfl
    | cons c cs =>
        rw [List.getLast?_eq_head?_reverse, parts] at open'
        refine List.dropWhile_cons_of_neg ?_
        simpa using open'
  unfold directory
  dsimp only
  rw [skip, kept]
  split
  · rename_i empty
    exact absurd (List.reverse_eq_nil_iff.mp empty) nonempty
  · rw [List.reverse_reverse, String.ofList_toList]

theorem getLast?_ofComponents {parts : List String} (clean : ∀ c ∈ parts, Clean c ∧ c ≠ "") :
    (ofComponents parts).toList ≠ [] ∧ (ofComponents parts).toList.getLast? ≠ some '/' := by
  rcases List.eq_nil_or_concat parts with rfl | ⟨front, last, rfl⟩
  · decide
  · have plain := clean last (by simp)
    rw [List.concat_eq_append, ofComponents_append _ (by simp),
      show joinWith '/' [last] = last from String.ofList_toList]
    refine ⟨by simp, fun slash => plain.1.1 ?_⟩
    rw [String.toList_append, List.getLast?_append_of_ne_nil _ (by simpa using plain.2)] at slash
    exact List.mem_of_getLast? slash

theorem directory_ofComponents {parts : List String} {last : String}
    (clean : ∀ c ∈ parts, Clean c ∧ c ≠ "") (free : '/' ∉ last.toList) :
    directory (ofComponents (parts ++ [last])) = ofComponents parts := by
  rw [ofComponents_append _ (by simp)]
  have alone : joinWith '/' [last] = last := String.ofList_toList
  obtain ⟨nonempty, open'⟩ := getLast?_ofComponents clean
  rw [alone, directory_append_slash free nonempty open']

/-! ## Specifiers -/

def Normal (path : String) : Prop :=
  ∃ parts, parts ≠ [] ∧ Resolved parts ∧ path = ofComponents parts

theorem suffix_of_not_mem {front last ending : List Char} (ends : ending <:+ front ++ '/' :: last)
    (free : '/' ∉ ending) : ending <:+ last := by
  rcases List.suffix_or_suffix_of_suffix ends (List.suffix_append _ _) with short | long
  · rcases List.suffix_cons_iff.mp short with same | within
    · exact absurd (same ▸ List.mem_cons_self) free
    · exact within
  · exact absurd (long.subset List.mem_cons_self) free

theorem normal_of_normalize? {raw path extension : String} (normal : normalize? raw = some path)
    (ends : endsWith path extension = true) (free : '/' ∉ extension.toList)
    (nonempty : extension ≠ "") : Normal path := by
  obtain ⟨parts, resolved, rfl⟩ := normalize?_eq_some normal
  cases parts with
  | nil =>
      have ends : extension.toList <:+ ['.'] ++ '/' :: [] := by
        simpa [endsWith, joinWith, joinChars] using ends
      have empty := List.suffix_nil.mp (suffix_of_not_mem ends free)
      exact absurd empty (by simpa using nonempty)
  | cons c cs => exact ⟨c :: cs, by simp, resolved, (ofComponents_eq (by simp)).symm⟩

theorem relative_eq (source target : List String) : ∃ common up down,
    source = common ++ up ∧ target = common ++ down ∧
      relative source target = (up.map fun _ => "..") ++ down := by
  induction source generalizing target with
  | nil => exact ⟨[], [], target, rfl, rfl, by cases target <;> rfl⟩
  | cons f fs ih =>
      cases target with
      | nil => exact ⟨[], f :: fs, [], rfl, rfl, rfl⟩
      | cons t ts =>
          rw [relative]
          split
          · rename_i same
            subst same
            obtain ⟨common, up, down, rfl, rfl, steps⟩ := ih ts
            exact ⟨f :: common, up, down, rfl, rfl, steps⟩
          · exact ⟨[], f :: fs, t :: ts, rfl, rfl, rfl⟩

theorem suffix_last {front : List String} {last extension : String}
    (ends : endsWith (ofComponents (front ++ [last])) extension = true)
    (free : '/' ∉ extension.toList) : ∃ stem, last = stem ++ extension := by
  rw [ofComponents_append _ (by simp),
    show joinWith '/' [last] = last from String.ofList_toList] at ends
  have ends : extension.toList <:+ (ofComponents front).toList ++ '/' :: last.toList := by
    simpa [endsWith] using ends
  obtain ⟨stem, same⟩ := suffix_of_not_mem ends free
  exact ⟨String.ofList stem, String.toList_inj.mp (by simp [same])⟩

theorem joinWith_snoc (init : List String) (stem extension : String) :
    joinWith '/' (init ++ [stem ++ extension]) = joinWith '/' (init ++ [stem]) ++ extension := by
  refine String.toList_inj.mp ?_
  cases init with
  | nil => simp [joinWith, joinChars]
  | cons first rest =>
      rw [joinWith_append (List.cons_ne_nil first rest) (by simp),
        joinWith_append (List.cons_ne_nil first rest) (by simp)]
      simp [joinWith, joinChars]

theorem specifier?_of_relativePath {source target extension stem : String}
    (nonempty : target ≠ "")
    (path : relativePath (directory source) target = stem ++ extension) :
    specifier? source target extension =
      some (if startsWith stem "../" then stem else "./" ++ stem) := by
  have ends : endsWith (stem ++ extension) extension = true := by
    simp [endsWith]
  have cut : dropEnd extension.toList.length (stem ++ extension) = stem := by
    simp [dropEnd]
  have short : (if extension ≠ "" ∧ endsWith (stem ++ extension) extension = true then
      dropEnd extension.toList.length (stem ++ extension) else stem ++ extension) = stem := by
    by_cases empty : extension = ""
    · subst empty
      simp
    · rw [if_pos ⟨empty, ends⟩, cut]
  rw [specifier?, if_neg nonempty, path]
  dsimp only
  rw [short]

theorem collapse_relative {common up down : List String}
    (stay : ∀ c ∈ common ++ up, Stays c) (resolved : Resolved (common ++ down))
    {dots : List String} (inner : dots = [] ∨ dots = ["."]) :
    collapse false (common ++ up ++ dots ++ ((up.map fun _ => "..") ++ down)) =
      common ++ down := by
  have commonStays : ∀ c ∈ common, Stays c := fun c member => stay c (by simp [member])
  have upStays : ∀ c ∈ up.reverse, Stays c :=
    fun c member => stay c (by simp [List.mem_reverse.mp member])
  have still : dots.foldl (step false) (common ++ up).reverse = (common ++ up).reverse := by
    rcases inner with rfl | rfl <;> rfl
  have back : (up.map fun _ => "..").foldl (step false) (common ++ up).reverse =
      common.reverse := by
    have ups := foldl_step_ups upStays false common.reverse
    rwa [List.map_reverse, List.map_const', List.reverse_replicate, ← List.reverse_append,
      ← List.map_const'] at ups
  have rest : down.foldl (step false) common.reverse = (common ++ down).reverse := by
    have whole := collapse_of_resolved resolved
    rw [collapse, List.foldl_append, foldl_step_of_stays commonStays, List.append_nil] at whole
    exact List.reverse_eq_iff.mp whole
  have along : (common ++ up ++ dots).foldl (step false) [] = (common ++ up).reverse := by
    rw [List.foldl_append, foldl_step_of_stays stay, List.append_nil, still]
  rw [collapse, List.foldl_append, along, List.foldl_append, back, rest, List.reverse_reverse]

section

variable {common up down : List String} (stay : ∀ c ∈ common ++ up, Stays c ∧ Clean c)
  (resolved : Resolved (common ++ down)) (filled : down ≠ [])

include stay resolved filled

theorem relativePath_ofComponents
    (steps : relative (common ++ up) (common ++ down) = (up.map fun _ => "..") ++ down) :
    relativePath (ofComponents (common ++ up)) (ofComponents (common ++ down)) =
      joinWith '/' ((up.map fun _ => "..") ++ down) := by
  have targetParts : components (ofComponents (common ++ down)) = common ++ down := by
    rw [components_ofComponents resolved.clean, collapse_of_resolved resolved]
  have sourceParts : components (ofComponents (common ++ up)) = common ++ up := by
    rw [components_ofComponents fun c member => (stay c member).2]
    exact collapse_of_resolved (.inl stay)
  rw [relativePath, sourceParts, targetParts, steps]
  split
  · rename_i empty
    exact absurd (List.append_eq_nil_iff.mp empty).2 filled
  · rfl

theorem normalize?_relative {dots : List String} (inner : dots = [] ∨ dots = ["."]) :
    normalize? (ofComponents (common ++ up) ++ "/" ++
      joinWith '/' (dots ++ ((up.map fun _ => "..") ++ down))) =
        some (ofComponents (common ++ down)) := by
  have clean : ∀ c ∈ common ++ up ++ dots ++ ((up.map fun _ => "..") ++ down), Clean c := by
    intro c member
    rcases List.mem_append.mp member with member | member
    · rcases List.mem_append.mp member with member | member
      · exact (stay c member).2
      · rcases inner with rfl | rfl
        · cases member
        · rw [List.mem_singleton.mp member]
          decide
    · rcases List.mem_append.mp member with member | member
      · obtain ⟨-, -, rfl⟩ := List.mem_map.mp member
        decide
      · exact resolved.clean c (List.mem_append_right _ member)
  rw [← ofComponents_append _ (by simp [filled]), ← List.append_assoc]
  exact normalize?_ofComponents clean (by simp [filled]) resolved
    (collapse_relative (fun c member => (stay c member).1) resolved inner)

end

theorem normalize?_of_directory {source extension specifier : String}
    {directoryParts targetParts : List String} (stay : ∀ c ∈ directoryParts, Stays c ∧ Clean c)
    (start : directory source = ofComponents directoryParts) (resolved : Resolved targetParts)
    (apart : ¬targetParts <+: directoryParts)
    (ends : endsWith (ofComponents targetParts) extension = true) (free : '/' ∉ extension.toList)
    (found : specifier? source (ofComponents targetParts) extension = some specifier) :
    normalize? (directory source ++ "/" ++ specifier ++ extension) =
      some (ofComponents targetParts) := by
  obtain ⟨common, up, down, rfl, rfl, steps⟩ := relative_eq directoryParts targetParts
  obtain rfl | ⟨front, last, rfl⟩ := List.eq_nil_or_concat down
  · refine absurd ?_ apart
    rw [List.append_nil]
    exact List.prefix_append common up
  rw [List.concat_eq_append] at resolved ends found steps ⊢
  rw [← List.append_assoc] at ends
  obtain ⟨stem, rfl⟩ := suffix_last ends free
  have path := relativePath_ofComponents stay resolved (by simp) steps
  rw [← List.append_assoc (up.map _), joinWith_snoc] at path
  have leads : ∀ dots : List String, dots = [] ∨ dots = ["."] →
      normalize? (ofComponents (common ++ up) ++ "/" ++
        (joinWith '/' (dots ++ ((up.map fun _ => "..") ++ front) ++ [stem]) ++ extension)) =
          some (ofComponents (common ++ (front ++ [stem ++ extension]))) := by
    intro dots inner
    rw [← joinWith_snoc, List.append_assoc dots, List.append_assoc _ front]
    exact normalize?_relative stay resolved (by simp) inner
  rw [specifier?_of_relativePath (ofComponents_ne_empty _) (start ▸ path)] at found
  rw [start]
  cases found
  split
  · rw [String.append_assoc]
    exact leads [] (.inl rfl)
  · have dot : "./" ++ joinWith '/' ((up.map fun _ => "..") ++ front ++ [stem]) =
        joinWith '/' (["."] ++ ((up.map fun _ => "..") ++ front) ++ [stem]) :=
      (ofComponents_eq (by simp)).symm
    rw [String.append_assoc, dot]
    exact leads ["."] (.inr rfl)

theorem directory_of_resolved {directoryParts : List String} {name : String}
    (resolved : Resolved (directoryParts ++ [name])) :
    (∀ c ∈ directoryParts, Stays c ∧ Clean c) ∧
      directory (ofComponents (directoryParts ++ [name])) = ofComponents directoryParts := by
  have stay : ∀ c ∈ directoryParts, Stays c ∧ Clean c := by
    rcases resolved with stay | up
    · exact fun c member => stay c (List.mem_append_left _ member)
    · obtain ⟨rfl, -⟩ := List.append_eq_singleton_iff.mp up |>.resolve_right (by simp)
      simp
  refine ⟨stay, directory_ofComponents ?_ (resolved.clean name (by simp)).1⟩
  exact fun c member => ⟨(stay c member).2, (stay c member).1.nonempty⟩

theorem ofComponents_isPrefix {targetParts directoryParts : List String} (name : String)
    (above : targetParts <+: directoryParts) :
    (ofComponents targetParts ++ "/").toList <+:
      (ofComponents (directoryParts ++ [name])).toList := by
  obtain ⟨rest, rfl⟩ := above
  rw [List.append_assoc, ofComponents_append _ (by simp)]
  exact ⟨_, by rw [← String.toList_append]⟩

theorem normalize?_of_specifier? {source target extension specifier : String}
    (normal : Normal source) (normal' : Normal target)
    (ends : endsWith target extension = true) (free : '/' ∉ extension.toList)
    (apart : ¬(target ++ "/").toList <+: source.toList)
    (found : specifier? source target extension = some specifier) :
    normalize? (directory source ++ "/" ++ specifier ++ extension) = some target := by
  obtain ⟨parts, filled, resolved, rfl⟩ := normal
  obtain ⟨targetParts, -, resolved', rfl⟩ := normal'
  obtain rfl | ⟨directoryParts, name, rfl⟩ := List.eq_nil_or_concat parts
  · exact absurd rfl filled
  rw [List.concat_eq_append] at resolved apart found ⊢
  obtain ⟨stay, start⟩ := directory_of_resolved resolved
  exact normalize?_of_directory stay start resolved'
    (fun above => apart (ofComponents_isPrefix name above)) ends free found

end ScriptModules.Path
