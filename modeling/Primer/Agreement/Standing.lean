import Primer.Agreement.Basic

/-!
# Standing cases

The programs on which the strategies are always compared: the constructs of the language, common mistakes in
writing a program, and faults that only checked runs report.
-/

set_option autoImplicit false

namespace Primer

namespace AgreementCase

/-- A case of which the lines are given. -/
def ofLines (name : String) (raw : Bool) (lines : List String) : AgreementCase :=
  ⟨name, String.intercalate "\n" lines, raw⟩

/-- The standing cases. -/
def standing : List AgreementCase := [
  ofLines "comments" true [
    "  // one line comment", "  /* multiline", "comment with * and / and /* and /***...",
    "and also // and ///*** and more! */", "console.log(\"Hello world!\");"],
  ofLines "assignments" true [
    "// variable assignments", "var a;", "a = 0;", "console.log(a);", "var a = 5;", "console.log(a);",
    "var b = a*a+a/a-a%a+(a*a*a-a);", "console.log(b);", "var c=b, d=c, e=d;", "console.log(e);",
    "c = b==c && c==d && d==b;", "console.log(c);", "d = c || b > d;", "console.log(d);",
    "e = (1>2 && 1>=2 && 2<1 && 2<=1) || 2 != 1;", "console.log(e);", "var f = -5 > +3 || !false;",
    "console.log(f);", "f = !(f || false) || false;", "console.log(f);", "a = 1.4E-02;",
    "console.log(a);", "a += a;", "console.log(a);", "a *= a;", "console.log(a);", "a -= a/10;",
    "console.log(a);", "a /= 0.003;", "console.log(a);", "a %= 10;", "console.log(a);", "a++;",
    "console.log(a);", "a--;", "console.log(a);", "a = 5+3*5+1+9*10/5%2+18/23-52/16%82-53*32;",
    "console.log(a);", "var str=\"\";", "console.log(str);", "str += \"hi\";", "console.log(str);",
    "str += 10;", "console.log(str);", "str = 5+5+str;", "console.log(str);", "var len = str.length;",
    "console.log(len);"],
  ofLines "control" true [
    "// control structures", "var f=true, e=!f;", "if (true) \x7b", "  console.log(true);",
    "  if (f && e && false) \x7b", "    console.log(false);", "  \x7d else \x7b", "    if (false) \x7b",
    "      console.log(false);", "    \x7d else if (true) \x7b", "      console.log(true);", "    \x7d",
    "  \x7d", "\x7d", "", "var i=0;", "while (i<10) \x7b", "  console.log(i*i-i);", "  i++;", "\x7d", "",
    "for (var j=0; j<10; j++) \x7b", "  console.log(j);", "\x7d"],
  ofLines "functions_simple" true [
    "// functions simple", "function f1(n) \x7b", "  console.log(n*100);", "\x7d", "function f2(n) \x7b",
    "  return n*100;", "\x7d", "f1(10);", "console.log(f2(20));"],
  ofLines "functions_complex" true [
    "// functions complex", "var a, b=100, c=\"test\", d=1000;", "function f1(a, b, c, q1, q2, q3) \x7b",
    "  console.log(a+d);", "  console.log(f2(b*3)/3);", "  console.log(f3(b, c));",
    "  console.log((q1+q2)%q3);", "\x7d", "function f2(n) \x7b", "  var c = n;", "  return n+(3/c);",
    "\x7d", "function f3(a,b) \x7b", "  console.log(a);", "  console.log(b);",
    "  for (var c=0; c>-100; c--) \x7b", "    a *= b;", "  \x7d", "  return a+b;", "\x7d",
    "var x=5, y=10, z=15;", "f1(x,y,z, 8, 9, 10, \"test\");"],
  ⟨"missing_semicolon_1", "var a", true⟩,
  ⟨"missing_semicolon_2", "var a=5*5", true⟩,
  ofLines "missing_semicolon_3" true [
    "var a;", " a=5*5"],
  ofLines "missing_semicolon_4" true [
    "var a;", " if (a) \x7b", " a=5*5 ", "\x7d"],
  ⟨"missing_semicolon_5", "console.log(5)", true⟩,
  ofLines "missing_semicolon_6" true [
    "var a;", " a+=a"],
  ofLines "missing_semicolon_7" true [
    "for(var a=0 a<5; a++) \x7b", " \x7d"],
  ofLines "missing_bracket_1" true [
    "if (true) ", " \x7d"],
  ⟨"missing_bracket_2", "if (true) \x7b", true⟩,
  ofLines "missing_bracket_3" true [
    "while (true) ", " \x7d"],
  ⟨"missing_bracket_4", "while (true) \x7b", true⟩,
  ofLines "missing_bracket_5" true [
    "for (var i=0; i<10; i++) ", " \x7d"],
  ofLines "missing_bracket_6" true [
    "for (var i=0; i<10; i++) \x7b", ""],
  ofLines "missing_bracket_7" true [
    "if (true) \x7b", " \x7d else ", " \x7d"],
  ofLines "missing_bracket_8" true [
    "if (true) \x7b", " \x7d else \x7b ", ""],
  ofLines "missing_bracket_9" true [
    "if (true) \x7b", "  else \x7b ", " \x7d"],
  ofLines "missing_bracket_10" true [
    "if (true) ", " \x7d else \x7b ", " \x7d"],
  ofLines "missing_bracket_11" true [
    "if (5>(5+5) \x7b", " \x7d"],
  ofLines "missing_bracket_12" true [
    "if 5>5) \x7b", " \x7d"],
  ⟨"incorrect_string_1", "var str = \"Hello World!;", true⟩,
  ⟨"incorrect_string_2", "var str = \"Hello World!", true⟩,
  ⟨"incorrect_string_3", "var str = Hello World!\";", true⟩,
  ⟨"reserved_word_1", "var jsmm;", true⟩,
  ⟨"reserved_word_2", "var vars;", true⟩,
  ofLines "string_concatenation" true [
    "var s = \"\";", "for (var i = 0; i < 3; i++) \x7b", "  s += i;", "\x7d",
    "console.log(s, s + \"!\", s.length);"],
  ofLines "array_slots" true [
    "var a = [1, 2];", "a[4] = 5;", "console.log(a.length);", "a.length = 1;", "console.log(a);",
    "a[1] = [3, 4];", "a[1][0] += 10;", "console.log(a[1][0], a.length);"],
  ⟨"unary_1", "console.log(+true);", false⟩,
  ⟨"unary_2", "console.log(-false);", false⟩,
  ⟨"unary_3", "console.log(+\"string\");", false⟩,
  ⟨"unary_4", "console.log(-\"string\");", false⟩,
  ⟨"unary_5", "console.log(!\"string\");", false⟩,
  ⟨"unary_6", "console.log(!5);", false⟩,
  ofLines "invalid_funcion_call_1" false [
    "function f(a, b) \x7b", " return a;", " \x7d", " f(1);"],
  ofLines "invalid_funcion_call_2" false [
    "function f(a, b) \x7b", " return a+b;", " \x7d", " f(1);"],
  ofLines "division_by_zero" false [
    "var a = 5;", "console.log(a / 0);"],
  ofLines "modulo_by_zero" false [
    "var a = 5;", "a %= 0;"],
  ofLines "read_past_end" false [
    "var a = [1, 2];", "console.log(a[2]);"],
  ofLines "guard_not_boolean" false [
    "var a = 1;", "while (a) \x7b", "  a--;", "\x7d"],
  ofLines "undefined_operand" false [
    "var a;", "console.log(a + 1);"]]

end AgreementCase

end Primer
