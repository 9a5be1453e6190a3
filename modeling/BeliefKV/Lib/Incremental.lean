import Mathlib.Data.List.DropRight
import Mathlib.Data.List.Infix
import Mathlib.Tactic

/-! Decoders that read a text symbol by symbol until they have a value, and texts without the blanks around them. -/
namespace BeliefKV.Incremental
variable {S C V : Type}

/-! ## Decoding -/

section Decode
variable (step : S → C → S) (value : S → Option V)

/-- Read symbols until there is a value; the result is the value and what follows it. -/
def decode : S → List C → Option (V × List C)
  | s, [] => (value s).map fun v => (v,[])
  | s, c :: rest =>
    match value s with
    | some v => some (v,c :: rest)
    | none => decode (step s c) rest

variable {step value} {s : S} {v : V} {text more rest : List C}

theorem decode_of_value (h : value s = some v) (text : List C) : decode step value s text = some (v,text) := by
  cases text with
  | nil =>
    unfold decode
    rw [h]
    rfl
  | cons c text =>
    unfold decode
    rw [h]

/-- What follows a value does not change it. -/
theorem decode_append (h : decode step value s text = some (v,rest)) :
    decode step value s (text ++ more) = some (v,rest ++ more) := by
  induction text generalizing s with
  | nil =>
    obtain ⟨w,hw,hrest⟩ := Option.map_eq_some_iff.mp h
    cases hrest
    exact decode_of_value hw more
  | cons c text ih =>
    cases hs : value s with
    | some w =>
      rw [decode_of_value hs] at h
      cases h
      exact decode_of_value hs _
    | none =>
      unfold decode at h
      rw [hs] at h
      rw [List.cons_append]
      unfold decode
      rw [hs]
      exact ih h

theorem decode_suffix (h : decode step value s text = some (v,rest)) : rest <:+ text := by
  induction text generalizing s with
  | nil =>
    obtain ⟨w,-,hrest⟩ := Option.map_eq_some_iff.mp h
    cases hrest
    exact List.suffix_refl []
  | cons c text ih =>
    cases hs : value s with
    | some w =>
      rw [decode_of_value hs] at h
      cases h
      exact List.suffix_refl _
    | none =>
      unfold decode at h
      rw [hs] at h
      exact (ih h).trans (List.suffix_cons c text)

/-- A part of a text that is used up by its value has no value. -/
theorem decode_part (h : decode step value s (text ++ more) = some (v,[])) (hmore : more ≠ []) :
    decode step value s text = none := by
  cases hpart : decode step value s text with
  | none => rfl
  | some found =>
    have hall : decode step value s (text ++ more) = some (found.1,found.2 ++ more) := decode_append hpart
    rw [h] at hall
    obtain ⟨-,hrest⟩ := Prod.mk.inj (Option.some.inj hall)
    exact absurd (List.append_eq_nil_iff.mp hrest.symm).2 hmore

end Decode

/-! ## Blanks -/

section Strip
variable (blank : C → Bool)

/-- A text without the blanks at its end. -/
def rstrip (text : List C) : List C := text.rdropWhile blank

/-- A text without the blanks around it. -/
def strip (text : List C) : List C := rstrip blank (text.dropWhile blank)

variable {blank} {text part core blanks : List C} {c : C}

theorem rstrip_append_blanks (h : ∀ c ∈ blanks, blank c = true) (text : List C) :
    rstrip blank (text ++ blanks) = rstrip blank text := by
  induction blanks using List.reverseRecOn with
  | nil => rw [List.append_nil]
  | append_singleton blanks c ih =>
    rw [← List.append_assoc]
    unfold rstrip
    rw [List.rdropWhile_concat,if_pos (h c (by simp))]
    exact ih fun d hd => h d (List.mem_append_left [c] hd)

theorem dropWhile_append_blanks (h : ∀ c ∈ blanks, blank c = true) (text : List C) :
    (blanks ++ text).dropWhile blank = text.dropWhile blank := by
  induction blanks with
  | nil => rfl
  | cons c blanks ih =>
    rw [List.cons_append,List.dropWhile_cons_of_pos (h c List.mem_cons_self)]
    exact ih fun d hd => h d (List.mem_cons_of_mem c hd)

theorem dropWhile_head (h : text.dropWhile blank = c :: core) : blank c = false := by
  have hhead := List.head_dropWhile_not blank (l := text) (by rw [h]; exact List.cons_ne_nil c core)
  simpa only [h,List.head_cons] using hhead

theorem dropWhile_part (hcore : core <+: text.dropWhile blank) : core.dropWhile blank = core := by
  cases core with
  | nil => rfl
  | cons c core =>
    obtain ⟨more,hmore⟩ := hcore
    have hc := dropWhile_head hmore.symm
    rw [List.dropWhile_cons_of_neg (by rw [hc]; exact Bool.false_ne_true)]

theorem rstrip_self (hcore : core ≠ []) (h : rstrip blank core = core) (front : List C) :
    rstrip blank (front ++ core) = front ++ core := by
  unfold rstrip at h ⊢
  rw [List.rdropWhile_eq_self_iff] at h ⊢
  intro hsome
  rw [List.getLast_append_of_ne_nil hsome hcore]
  exact h hcore

variable (blank text) in
/-- A text is its blanks, itself stripped, and blanks; without the last ones it ends where it ends when stripped. -/
theorem strip_spec : ∃ front tail, text = front ++ text.dropWhile blank ∧
    text.dropWhile blank = strip blank text ++ tail ∧ (∀ c ∈ front, blank c = true) ∧
    (∀ c ∈ tail, blank c = true) ∧ (strip blank text ≠ [] → rstrip blank text = front ++ strip blank text) := by
  have htext : text = text.takeWhile blank ++ text.dropWhile blank := List.takeWhile_append_dropWhile.symm
  have hbody : text.dropWhile blank = strip blank text ++ (text.dropWhile blank).rtakeWhile blank :=
    List.rdropWhile_append_rtakeWhile.symm
  have htail : ∀ c ∈ (text.dropWhile blank).rtakeWhile blank, blank c = true := fun c hc => List.mem_rtakeWhile_imp hc
  refine ⟨_,_,htext,hbody,fun c hc => List.mem_takeWhile_imp hc,htail,fun hsome => ?_⟩
  have hself : rstrip blank (strip blank text) = strip blank text := List.rdropWhile_idempotent blank _
  have hsplit : text = text.takeWhile blank ++ strip blank text ++ (text.dropWhile blank).rtakeWhile blank := by
    rw [List.append_assoc,← hbody]
    exact htext
  calc rstrip blank text = rstrip blank (text.takeWhile blank ++ strip blank text ++
        (text.dropWhile blank).rtakeWhile blank) := congrArg (rstrip blank) hsplit
    _ = rstrip blank (text.takeWhile blank ++ strip blank text) := rstrip_append_blanks htail _
    _ = text.takeWhile blank ++ strip blank text := rstrip_self hsome hself _

/-- Nothing is left of blanks only. -/
theorem strip_eq_nil (h : strip blank text = []) : ∀ c ∈ text, blank c = true := by
  obtain ⟨front,tail,htext,hbody,hfront,htail,-⟩ := strip_spec blank text
  rw [h,List.nil_append] at hbody
  rw [htext,hbody]
  exact fun c hc => (List.mem_append.mp hc).elim (hfront c) (htail c)

theorem prefix_append_cases {front rest : List C} (h : part <+: front ++ rest) :
    (∃ more, more ≠ [] ∧ front = part ++ more) ∨ ∃ read, part = front ++ read ∧ read <+: rest := by
  obtain ⟨more,hmore⟩ := h
  obtain ⟨left,hfront,-⟩ | ⟨read,hpart,hrest⟩ := List.append_eq_append_iff.mp hmore
  · by_cases hleft : left = []
    · rw [hleft,List.append_nil] at hfront
      exact .inr ⟨[],by rw [hfront,List.append_nil],List.nil_prefix⟩
    · exact .inl ⟨left,hleft,hfront⟩
  · exact .inr ⟨read,hpart,more,hrest.symm⟩

/-- A part of a text holds everything but the blanks at the end, and is then the same when stripped; or it is, when
stripped, a proper part of the stripped text. -/
theorem strip_part (hsome : strip blank text ≠ []) (hpart : part <+: text) :
    (rstrip blank text <+: part ∧ strip blank part = strip blank text) ∨
      (¬ rstrip blank text <+: part ∧ ∃ more, more ≠ [] ∧ strip blank text = strip blank part ++ more) := by
  obtain ⟨front,tail,htext,hbody,hfront,htail,hend⟩ := strip_spec blank text
  have hself : rstrip blank (strip blank text) = strip blank text := List.rdropWhile_idempotent blank _
  rw [hend hsome]
  rw [htext] at hpart
  obtain ⟨more,hmore,hleft⟩ | ⟨read,hread,hrest⟩ := prefix_append_cases hpart
  · refine .inr ⟨fun hle => ?_,strip blank text,hsome,?_⟩
    · have hlength := hle.length_le
      rw [hleft,List.length_append,List.length_append] at hlength
      have hpos := List.length_pos_iff.mpr hmore
      omega
    · have hnone : part.dropWhile blank = [] := by
        have hblank := dropWhile_append_blanks (fun c hc => hfront c (hleft ▸ List.mem_append_left more hc))
          ([] : List C)
        rwa [List.append_nil] at hblank
      have hempty : strip blank part = [] := by
        unfold strip
        rw [hnone]
        rfl
      rw [hempty,List.nil_append]
  have hskip : strip blank part = rstrip blank read := by
    unfold strip
    rw [hread,dropWhile_append_blanks hfront,dropWhile_part hrest]
  rw [hbody] at hrest
  obtain ⟨more,hmore,hleft⟩ | ⟨extra,hextra,hblanks⟩ := prefix_append_cases hrest
  · refine .inr ⟨fun hle => ?_,?_⟩
    · have hlength := hle.length_le
      have hpos := List.length_pos_iff.mpr hmore
      rw [hread,hleft,List.length_append,List.length_append,List.length_append] at hlength
      omega
    · obtain ⟨cut,hcut⟩ := List.rdropWhile_prefix blank read
      refine ⟨cut ++ more,fun hnil => hmore (List.append_eq_nil_iff.mp hnil).2,?_⟩
      rw [hskip,hleft,← List.append_assoc]
      exact congrArg (· ++ more) hcut.symm
  · refine .inl ⟨?_,?_⟩
    · rw [hread,hextra,← List.append_assoc]
      exact List.prefix_append _ extra
    · rw [hskip,hextra,rstrip_append_blanks fun c hc => htail c (hblanks.subset hc),hself]

end Strip
end BeliefKV.Incremental
