/-!
The prelude: the functions that are defined in the language itself.
-/

namespace Lisplet.Prelude

def file : String := "std.splike"

def lines : List String :=
  [ "; Definitions that every program starts with. They are read and evaluated like",
    "; any other source text, so their calls show up in traces under this text's",
    "; file name, line and column.",
    ";",
    "",
    "; ---------------------------------------------------------------------------",
    "; Arithmetic and comparison",
    "; ---------------------------------------------------------------------------",
    "",
    "(defn -",
    "  ([x] (* -1 x))",
    "  ([x y] (+ x (* -1 y)))",
    "  ([x y & more] (apply - (- x y) more)))",
    "",
    "(defn not [x] (if x false true))",
    "",
    "(defn != [a b] (not (= a b)))",
    "",
    "(defn > [a b] (< b a))",
    "",
    "(defn <= [a b] (or (< a b) (= a b)))",
    "",
    "(defn >= [a b] (or (< b a) (= a b)))",
    "",
    "(defn inc [x] (+ x 1))",
    "",
    "(defn dec [x] (- x 1))",
    "",
    "; Modulo with the sign of the divisor.",
    "(defn mod [a b] (_cmod (+ (_cmod a b) b) b))",
    "",
    "; ---------------------------------------------------------------------------",
    "; Collections",
    "; ---------------------------------------------------------------------------",
    "",
    "(defn identity [x] x)",
    "",
    "(defn list [& items] items)",
    "",
    "(defn nth [xs i] (_subscript xs i))",
    "",
    "(defn count [xs]",
    "  (if (= (type xs) \"Hash\")",
    "    (.-size xs)",
    "    (.-length xs)))",
    "",
    "(defn empty? [xs] (= (count xs) 0))",
    "",
    "(defn map [f xs]",
    "  (if (empty? xs)",
    "    []",
    "    (cons (f (head xs)) (map f (tail xs)))))",
    "",
    "(defn filter [pred xs]",
    "  (if (empty? xs)",
    "    []",
    "    (if (pred (head xs))",
    "      (cons (head xs) (filter pred (tail xs)))",
    "      (filter pred (tail xs)))))",
    "",
    "(defn reduce",
    "  ([f xs] (reduce f (head xs) (tail xs)))",
    "  ([f acc xs]",
    "    (if (empty? xs)",
    "      acc",
    "      (reduce f (f acc (head xs)) (tail xs)))))",
    "",
    "(defn range",
    "  ([end] (range 0 end))",
    "  ([start end]",
    "    (if (< start end)",
    "      (cons start (range (+ start 1) end))",
    "      [])))",
    "",
    "(defn reverse [xs] (reduce (fn [acc x] (cons x acc)) [] xs))",
    "",
    "(defn concat",
    "  ([] [])",
    "  ([xs] xs)",
    "  ([xs ys] (.concat xs ys))",
    "  ([xs ys & more] (apply concat (concat xs ys) more)))" ]

def source : String := "\n".intercalate lines ++ "\n"

end Lisplet.Prelude
