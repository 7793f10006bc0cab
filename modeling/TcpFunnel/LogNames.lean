import TcpFunnel.Log
import Mathlib.Data.List.Infix

/-!
# The names of the log files

The name of a period ends in a letter and that of a rotated file in the digits
of its count, so that a count that has not been used gives a file that is not
there. The two handlers write to different files.
-/

set_option autoImplicit false

namespace TcpFunnel.LogNames
open TcpFunnel.CInt TcpFunnel.Log

variable {path : CString} {type c c' x : ℤ} {tm tm' : Tm} {f : CString}

theorem percentD_length : (percentD x).length ≤ 11 := by
  have hdigits : (Nat.toDigits 10 (cInt x).natAbs).length ≤ 10 := by
    apply (Nat.length_toDigits_le_iff (by decide) (by decide)).mpr
    have hx := @cInt_range x
    omega
  unfold percentD
  split
  · rw [List.length_cons]
    omega
  · omega

theorem percent02D_length : (percent02D x).length ≤ 11 := by
  unfold percent02D
  split
  next hx =>
    have hdigit : (Nat.toDigits 10 (cInt x).natAbs).length ≤ 1 := by
      apply (Nat.length_toDigits_le_iff (by decide) (by decide)).mpr
      omega
    rw [List.length_cons, percentD, if_neg (by omega)]
    omega
  next => exact percentD_length

theorem tag_length (level : LogLevel) : level.tag.length ≤ 7 := by
  cases level <;> decide

/-- The date and what is put around it stay within the 256 bytes that are
reckoned for them. -/
theorem line_length {level : LogLevel} {pid : ℤ} {msg : CString} :
    (line (dateText level tm pid) msg).length ≤ 256+msg.length := by
  have hdate : (dateText level tm pid).length ≤ 102 := by
    have hyear := @percentD_length (1900+tm.year)
    have hmon := @percent02D_length (tm.mon+1)
    have hmday := @percent02D_length tm.mday
    have hhour := @percent02D_length tm.hour
    have hmin := @percent02D_length tm.min
    have hsec := @percent02D_length tm.sec
    have hpid := @percentD_length pid
    have htag := tag_length level
    have hparts : "-".toList.length = 1 ∧ " ".toList.length = 1 ∧ ":".toList.length = 1 ∧
        " PID:".toList.length = 5 := by decide
    obtain ⟨h1,h2,h3,h4⟩ := hparts
    simp only [dateText, snprintf, List.length_take, List.length_append, h1, h2, h3, h4]
    omega
  have hends : ": ".toList.length = 2 ∧ "\n".toList.length = 1 := by decide
  obtain ⟨h1,h2⟩ := hends
  simp only [line, List.length_append, h1, h2]
  omega

theorem norName_length : (norName path type tm).length ≤ path.length+65 := by
  have htype := @percentD_length type
  have hyear := @percent02D_length (tm.year+1900-2000)
  have hmon := @percent02D_length (tm.mon+1)
  have hmday := @percent02D_length tm.mday
  have hhour := @percent02D_length tm.hour
  have hparts : "/log/".toList.length = 5 ∧ "_".toList.length = 1 ∧ ".log".toList.length = 4 := by
    decide
  obtain ⟨h1,h2,h3⟩ := hparts
  simp only [norName, List.length_append, h1, h2, h3]
  omega

theorem periodName_length : (periodName path type tm).length ≤ path.length+65 := by
  unfold periodName
  split
  · have hyear := @percentD_length (tm.year+1900)
    have hmon := @percent02D_length (tm.mon+1)
    have hmday := @percent02D_length tm.mday
    have hparts : "/error/".toList.length = 7 ∧ ".log".toList.length = 4 := by decide
    obtain ⟨h1,h2⟩ := hparts
    simp only [errName, List.length_append, h1, h2]
    omega
  · exact norName_length

theorem rotatedName_length : (rotatedName path type tm c).length ≤ path.length+77 := by
  have hname := @norName_length path type tm
  have hcount := @percentD_length c
  have hpart : "_".toList.length = 1 := by decide
  simp only [rotatedName, List.length_append, hpart]
  omega

theorem percentD_nat (hlo : 0 ≤ c) (hhi : c < 2147483648) :
    percentD c = Nat.toDigits 10 c.toNat := by
  have hnat : c.natAbs = c.toNat := by omega
  rw [percentD, cInt_small (by omega) hhi, if_neg (by omega), hnat]

theorem percentD_injective (hlo : 0 ≤ c) (hhi : c < 2147483648) (hlo' : 0 ≤ c')
    (hhi' : c' < 2147483648) (h : percentD c = percentD c') : c = c' := by
  rw [percentD_nat hlo hhi, percentD_nat hlo' hhi'] at h
  have hparsed := congrArg (fun digits => Nat.ofDigitChars 10 digits 0) h
  simp only [Nat.ofDigitChars_ten_toDigits] at hparsed
  omega

theorem last_part {α : Type*} [DecidableEq α] {sep : α} {a a' ds ds' : List α} (h : sep ∉ ds)
    (h' : sep ∉ ds') (heq : a ++ sep::ds = a' ++ sep::ds') : ds = ds' := by
  have htake : ∀ (b es : List α), sep ∉ es →
      (b ++ sep::es).reverse.takeWhile (· ≠ sep) = es.reverse := by
    intro b es hes
    have hall : ∀ x ∈ es.reverse, (decide (x ≠ sep)) = true := by
      intro x hx
      apply decide_eq_true
      rintro rfl
      exact hes (List.mem_reverse.mp hx)
    rw [List.reverse_append, List.reverse_cons, List.append_assoc,
      List.takeWhile_append_of_pos hall]
    simp
  have hboth := htake a ds h
  rw [heq, htake a' ds' h'] at hboth
  exact (List.reverse_injective hboth).symm

theorem rotatedName_injective (hlo : 0 ≤ c) (hhi : c < 2147483648) (hlo' : 0 ≤ c')
    (hhi' : c' < 2147483648) (h : rotatedName path type tm c = rotatedName path type tm' c') :
    c = c' := by
  apply percentD_injective hlo hhi hlo' hhi'
  have hsep : ∀ {d : ℤ}, 0 ≤ d → d < 2147483648 → '_' ∉ percentD d := by
    intro d hd hd'
    rw [percentD_nat hd hd']
    exact Nat.underscore_not_in_toDigits
  have hsplit : ∀ (t : Tm) (d : ℤ),
      rotatedName path type t d = norName path type t ++ '_'::percentD d := by
    intro t d
    simp [rotatedName]
  rw [hsplit, hsplit] at h
  exact last_part (hsep hlo hhi) (hsep hlo' hhi') h

/-- The last character tells the two kinds of name apart. -/
theorem rotatedName_ne_periodName (hlo : 0 ≤ c) (hhi : c < 2147483648) :
    rotatedName path type tm c ≠ periodName path type tm' := by
  intro h
  have hperiod : (periodName path type tm').getLast? = some 'g' := by
    have hends : ∀ stem : CString, (stem ++ ".log".toList).getLast? = some 'g' := by
      intro stem
      rw [List.getLast?_append_of_ne_nil _ (by decide)]
      rfl
    unfold periodName errName norName
    split <;> exact hends _
  have hrotated : ∀ x, (rotatedName path type tm c).getLast? = some x → x.isDigit = true := by
    intro x hx
    have hne : Nat.toDigits 10 c.toNat ≠ [] := Nat.toDigits_ne_nil
    rw [rotatedName, percentD_nat hlo hhi, List.getLast?_append_of_ne_nil _ hne] at hx
    exact Nat.isDigit_of_mem_toDigits (by decide) (by decide) (List.mem_of_getLast? hx)
  exact absurd (hrotated 'g' (h ▸ hperiod)) (by decide)

theorem norName_isPrefix : norName path type tm <+: rotatedName path type tm c := by
  rw [rotatedName, List.append_assoc]
  exact List.prefix_append ..

def Owns (path : CString) (type : ℤ) (f : CString) : Prop :=
  (type = LogLevel.err.code ∧ path ++ "/error/".toList <+: f) ∨
    path ++ "/log/".toList ++ percentD type ++ "_".toList <+: f

theorem norName_owned : Owns path type (norName path type tm) := by
  right
  simp only [norName, List.append_assoc]
  simp [List.prefix_append_right_inj]

theorem rotatedName_owned : Owns path type (rotatedName path type tm c) := by
  rcases @norName_owned path type tm with ⟨herr,h⟩ | h
  · exact .inl ⟨herr, h.trans norName_isPrefix⟩
  · exact .inr (h.trans norName_isPrefix)

theorem periodName_owned : Owns path type (periodName path type tm) := by
  unfold periodName
  split
  next herr =>
    left
    refine ⟨herr, ?_⟩
    simp only [errName, List.append_assoc]
    simp [List.prefix_append_right_inj]
  next => exact norName_owned

theorem owned_apart (h : Owns path 0 f) : ¬ Owns path LogLevel.err.code f := by
  rcases h with ⟨herr,-⟩ | ⟨rest,rfl⟩
  · exact absurd herr (by decide)
  · rintro (⟨-,h⟩ | h)
    · simp [List.append_assoc, List.prefix_append_right_inj] at h
    · have htypes : percentD 0 = ['0'] ∧ percentD LogLevel.err.code = ['4'] := by decide
      simp [List.append_assoc, List.prefix_append_right_inj, htypes] at h

/-- A rotated file of the errors is not in the directory of their periods. -/
theorem errName_not_prefix : ¬ errName path tm <+: rotatedName path type tm' c := by
  intro h
  simp [errName, rotatedName, norName, List.append_assoc, List.prefix_append_right_inj] at h

end TcpFunnel.LogNames
