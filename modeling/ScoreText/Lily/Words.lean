/-!
Words of LilyPond input. A pattern only finds a word; these tables tell what it is.
-/
namespace ScoreText.Lily.Words

def keywords : List String :=
  ["accepts", "alias", "book", "bookpart", "consists", "context", "defaultchild", "denies",
   "description", "etc", "header", "hide", "include", "inherit-acceptability", "language",
   "layout", "midi", "name", "omit", "once", "override", "paper", "remove", "revert", "score",
   "set", "tagGroup", "temporary", "type", "undo", "unset", "version", "with"]

def commands : List String :=
  ["absolute", "acciaccatura", "accidentalStyle", "addChordShape", "addInstrumentDefinition",
   "addlyrics", "addQuote", "after", "afterGrace", "aikenHeads", "aikenHeadsMinor",
   "aikenThinHeads", "aikenThinHeadsMinor", "allowBreak", "allowPageTurn", "allowVoltaHook",
   "alterBroken", "alternative", "ambitusAfter", "appendToTag", "applyContext", "applyMusic",
   "applyOutput", "appoggiatura", "arabicStringNumbers", "arpeggio", "arpeggioArrowDown",
   "arpeggioArrowUp", "arpeggioBracket", "arpeggioNormal", "arpeggioParenthesis",
   "arpeggioParenthesisDashed", "ascendens", "assertBeamQuant", "assertBeamSlope", "auctum",
   "aug", "augmentum", "autoAccidentals", "autoBeamOff", "autoBeamOn", "autoBreaksOff",
   "autoBreaksOn", "autoChange", "autoLineBreaksOff", "autoLineBreaksOn", "autoPageBreaksOff",
   "autoPageBreaksOn", "balloonGrobText", "balloonLengthOff", "balloonLengthOn", "balloonText",
   "bar", "barNumberCheck", "bassFigureExtendersOff", "bassFigureExtendersOn",
   "bassFigureStaffAlignmentDown", "bassFigureStaffAlignmentNeutral",
   "bassFigureStaffAlignmentUp", "beamExceptions", "bendAfter", "bendHold", "bendStartLevel",
   "blackTriangleMarkup", "bookOutputName", "bookOutputSuffix", "bracketCloseSymbol",
   "bracketOpenSymbol", "break", "breathe", "breve", "cadenzaOff", "cadenzaOn", "caesura",
   "cavum", "change", "chordmode", "chordRepeats", "chords", "clef", "cm", "compoundMeter",
   "compressEmptyMeasures", "compressMMRests", "context", "cr", "cresc", "crescHairpin",
   "crescTextCresc", "crossStaff", "cueClef", "cueClefUnset", "cueDuring", "cueDuringWithClef",
   "dashBar", "dashDash", "dashDot", "dashHat", "dashLarger", "dashPlus", "dashUnderscore",
   "deadNote", "deadNotesOff", "deadNotesOn", "decr", "default", "defaultNoteHeads",
   "defaultTimeSignature", "defineBarLine", "deminutum", "denies", "deprecatedcresc",
   "deprecateddim", "deprecatedendcresc", "deprecatedenddim", "descendens", "dim", "dimHairpin",
   "dimTextDecr", "dimTextDecresc", "dimTextDim", "displayLilyMusic", "displayMusic",
   "displayScheme", "divisioMaior", "divisioMaxima", "divisioMinima", "dotsDown", "dotsNeutral",
   "dotsUp", "dropNote", "drummode", "drumPitchTable", "drums", "dynamicDown", "dynamicNeutral",
   "dynamicUp", "easyHeadsOff", "easyHeadsOn", "enablePolymeter", "endcr", "endcresc", "enddecr",
   "enddim", "endincipit", "endSkipNCs", "endSpanners", "episemFinis", "episemInitium",
   "escapedBiggerSymbol", "escapedExclamationSymbol", "escapedParenthesisCloseSymbol",
   "escapedParenthesisOpenSymbol", "escapedSmallerSymbol", "eventChords", "expandEmptyMeasures",
   "expandFullBarRests", "f", "featherDurations", "fermataMarkup", "ff", "fff", "ffff", "fffff",
   "figuremode", "figures", "finalis", "fine", "finger", "fingeringOrientations", "fixed",
   "flexa", "footnote", "fp", "frenchChords", "fullJazzExceptions", "funkHeads",
   "funkHeadsMinor", "fz", "germanChords", "glissando", "grace", "graceSettings",
   "grobdescriptions", "harmonic", "harmonicByFret", "harmonicByRatio", "harmonicNote",
   "harmonicsOff", "harmonicsOn", "hideNotes", "hideSplitTiedTabNotes", "hideStaffSwitch",
   "huge", "ignatzekExceptionMusic", "ignatzekExceptions", "iij", "IIJ", "ij", "IJ",
   "improvisationOff", "improvisationOn", "in", "incipit", "inclinatum", "includePageLayoutFile",
   "indent", "inStaffSegno", "instrumentSwitch", "instrumentTransposition", "interscoreline",
   "inversion", "invertChords", "italianChords", "jump", "keepWithTag", "key", "kievanOff",
   "kievanOn", "killCues", "label", "laissezVibrer", "languageRestore", "languageSaveAndChange",
   "large", "ligature", "linea", "longa", "lyricmode", "lyrics", "lyricsto", "magnifyMusic",
   "magnifyStaff", "maininput", "maj", "majorSevenSymbol", "makeClusters",
   "makeDefaultStringTuning", "mark", "markLengthOff", "markLengthOn", "markup", "markuplines",
   "markuplist", "markupMap", "maxima", "medianChordGridStyle", "melisma", "melismaEnd",
   "mergeDifferentlyDottedOff", "mergeDifferentlyDottedOn", "mergeDifferentlyHeadedOff",
   "mergeDifferentlyHeadedOn", "mf", "mm", "modalInversion", "modalTranspose", "mp", "musicMap",
   "neumeDemoLayout", "new", "newSpacingSection", "noBeam", "noBreak", "noPageBreak",
   "noPageTurn", "normalsize", "notemode", "numericTimeSignature", "octaveCheck", "offset",
   "oldaddlyrics", "oneVoice", "oriscus", "ottava", "override", "overrideProperty",
   "overrideTimeSignatureSettings", "p", "pageBreak", "pageTurn", "palmMute", "palmMuteOff",
   "palmMuteOn", "parallelMusic", "parenthesisCloseSymbol", "parenthesisOpenSymbol",
   "parenthesize", "partCombine", "partCombineApart", "partCombineAutomatic",
   "partCombineChords", "partCombineDown", "partCombineForce", "partCombineListener",
   "partCombineSoloI", "partCombineSoloII", "partCombineUnisono", "partCombineUp", "partial",
   "partialJazzExceptions", "partialJazzMusic", "pes", "phrasingSlurDashed",
   "phrasingSlurDashPattern", "phrasingSlurDotted", "phrasingSlurDown", "phrasingSlurHalfDashed",
   "phrasingSlurHalfSolid", "phrasingSlurNeutral", "phrasingSlurSolid", "phrasingSlurUp",
   "pipeSymbol", "pitchedTrill", "pointAndClickOff", "pointAndClickOn", "pointAndClickTypes",
   "pp", "ppp", "pppp", "ppppp", "preBend", "preBendHold", "predefinedFretboardsOff",
   "predefinedFretboardsOn", "propertyOverride", "propertyRevert", "propertySet",
   "propertyTweak", "propertyUnset", "pt", "pushToTag", "quilisma", "quoteDuring", "raiseNote",
   "reduceChords", "relative", "RemoveEmptyRhythmicStaffContext", "RemoveEmptyStaffContext",
   "removeWithTag", "repeat", "repeatTie", "resetRelativeOctave", "responsum", "rest",
   "retrograde", "revert", "revertTimeSignatureSettings", "rfz", "rightHandFinger",
   "romanStringNumbers", "sacredHarpHeads", "sacredHarpHeadsMinor", "scaleDurations",
   "scoreTweak", "section", "sectionLabel", "segnoMark", "semiGermanChords", "set",
   "setDefaultDurationToQuarter", "settingsFrom", "sf", "sff", "sfp", "sfz", "shape",
   "shiftDurations", "shiftOff", "shiftOn", "shiftOnn", "shiftOnnn", "showSplitTiedTabNotes",
   "showStaffSwitch", "single", "skip", "skipNC", "skipNCs", "skipTypesetting", "slashedGrace",
   "slurDashed", "slurDashPattern", "slurDotted", "slurDown", "slurHalfDashed", "slurHalfSolid",
   "slurNeutral", "slurSolid", "slurUp", "small", "sostenutoOff", "sostenutoOn",
   "southernHarmonyHeads", "southernHarmonyHeadsMinor", "sp", "spacingTweaks", "spp",
   "staff-space", "staffHighlight", "startAcciaccaturaMusic", "startAppoggiaturaMusic",
   "startGraceMusic", "startGroup", "startMeasureCount", "startMeasureSpanner",
   "startSlashedGraceMusic", "startStaff", "startTextSpan", "startTrillSpan", "stemDown",
   "stemNeutral", "stemUp", "stopAcciaccaturaMusic", "stopAppoggiaturaMusic", "stopGraceMusic",
   "stopGroup", "stopMeasureCount", "stopMeasureSpanner", "stopSlashedGraceMusic", "stopStaff",
   "stopStaffHighlight", "stopTextSpan", "stopTrillSpan", "storePredefinedDiagram",
   "stringTuning", "strokeFingerOrientations", "stropha", "styledNoteHeads", "sustainOff",
   "sustainOn", "tabChordRepeats", "tabChordRepetition", "tabFullNotation", "tag", "teeny",
   "tempo", "tempoWholesPerMinute", "textEndMark", "textLengthOff", "textLengthOn", "textMark",
   "textSpannerDown", "textSpannerNeutral", "textSpannerUp", "tieDashed", "tieDashPattern",
   "tieDotted", "tieDown", "tieHalfDashed", "tieHalfSolid", "tieNeutral", "tieSolid", "tieUp",
   "tildeSymbol", "time", "times", "timing", "tiny", "tocItem", "transpose",
   "transposedCueDuring", "transposition", "treCorde", "tuplet", "tupletDown", "tupletNeutral",
   "tupletSpan", "tupletUp", "tweak", "unaCorda", "unfolded", "unfoldRepeats", "unHideNotes",
   "unit", "unset", "versus", "virga", "virgula", "voiceFour", "voiceFourStyle",
   "voiceNeutralStyle", "voiceOne", "voiceOneStyle", "voices", "voiceThree", "voiceThreeStyle",
   "voiceTwo", "voiceTwoStyle", "void", "vshape", "walkerHeads", "walkerHeadsMinor",
   "whiteTriangleMarkup", "withMusicProperty", "xNote", "xNotesOff", "xNotesOn"]

def articulations : List String :=
  ["accent", "espressivo", "marcato", "portato", "staccatissimo", "staccato", "tenuto",
   "downmordent", "downprall", "lineprall", "mordent", "prall", "pralldown", "prallmordent",
   "prallprall", "prallup", "reverseturn", "trill", "turn", "upmordent", "upprall", "fermata",
   "longfermata", "shortfermata", "verylongfermata", "downbow", "flageolet", "halfopen", "lheel",
   "ltoe", "open", "rheel", "rtoe", "snappizzicato", "stopped", "thumb", "upbow", "coda",
   "segno", "varcoda", "accentus", "circulus", "ictus", "semicirculus", "signumcongruentiae"]

def dynamics : List String :=
  ["f", "ff", "fff", "ffff", "fffff", "p", "pp", "ppp", "pppp", "ppppp", "mf", "mp", "fp", "sp",
   "spp", "sf", "sff", "sfz", "rfz", "cresc", "decresc", "dim", "cr", "decr"]

def pitchCommands : List String :=
  ["relative", "transpose", "transposition", "key", "octaveCheck"]

def units : List String :=
  ["mm", "cm", "in", "pt"]

def lyricModes : List String :=
  ["lyricmode", "lyrics", "addlyrics", "oldaddlyrics", "lyricsto"]

def noteModes : List String :=
  ["notes", "notemode"]

def chordModes : List String :=
  ["chords", "chordmode"]

def drumModes : List String :=
  ["drums", "drummode"]

def figureModes : List String :=
  ["figures", "figuremode"]

def markupCommands0 : List String :=
  ["coda", "doubleflat", "doublesharp", "eyeglasses", "fermata", "flat", "natural", "null",
   "segno", "semiflat", "semisharp", "sesquiflat", "sesquisharp", "sharp", "strut",
   "table-of-contents", "varcoda"]

def markupCommands1 : List String :=
  ["accidental", "backslashed-digit", "bold", "box", "bracket", "caps", "center-align",
   "center-column", "char", "circle", "column", "compound-meter", "concat", "dir-column",
   "discant", "draw-dashed-line", "draw-dotted-line", "draw-hline", "draw-line", "dynamic",
   "ellipse", "fill-line", "figured-bass", "finger", "first-visible", "fontCaps", "freeBass",
   "fret-diagram", "fret-diagram-terse", "fret-diagram-verbose", "fromproperty", "harp-pedal",
   "hbracket", "hspace", "huge", "italic", "justify", "justify-field", "justify-line",
   "justify-string", "large", "larger", "left-align", "left-brace", "left-column", "line",
   "lookup", "markalphabet", "markletter", "medium", "multi-measure-rest-by-number",
   "musicglyph", "normalsize", "normal-size-sub", "normal-size-super", "normal-text", "number",
   "oval", "overlay", "overtie", "polygon", "postscript", "property-recursive", "rest",
   "right-align", "right-brace", "right-column", "roman", "rounded-box", "rhythm", "sans",
   "score", "score-lines", "simple", "slashed-digit", "small", "smallCaps", "smaller", "stencil",
   "string-lines", "sub", "super", "teeny", "text", "tie", "tied-lyric", "tiny", "transparent",
   "triangle", "typewriter", "underline", "undertie", "upright", "vcenter", "verbatim-file",
   "vspace", "whiteout", "with-true-dimensions", "wordwrap", "wordwrap-field", "wordwrap-string"]

def markupCommands2 : List String :=
  ["abs-fontsize", "auto-footnote", "combine", "customTabClef", "fontsize", "footnote",
   "fraction", "halign", "hcenter-in", "if", "lower", "magnify", "note", "on-the-fly",
   "override", "pad-around", "pad-markup", "pad-x", "page-link", "path", "raise", "replace",
   "rest-by-number", "rotate", "scale", "translate", "translate-scaled", "unless", "with-color",
   "with-dimensions-from", "with-link", "with-outline", "with-string-transformer",
   "with-true-dimension", "with-url", "woodwind-diagram"]

def markupCommands3 : List String :=
  ["arrow-head", "beam", "draw-circle", "draw-squiggle-line", "epsfile", "filled-box",
   "general-align", "note-by-number", "pad-to-box", "page-ref", "with-dimension",
   "with-dimension-from", "with-dimensions"]

def markupCommands4 : List String :=
  ["pattern", "put-adjacent"]

def markupCommands5 : List String :=
  ["align-on-other", "fill-with-pattern"]

/-- Markup commands whose value is a list of markups. -/
def markupListCommands : List String :=
  ["column-lines", "justified-lines", "override-lines", "wordwrap-internal", "wordwrap-lines",
   "wordwrap-string-internal"]

def contexts : List String :=
  ["ChoirStaff", "ChordGrid", "ChordGridScore", "ChordNames", "CueVoice", "Devnull", "DrumStaff",
   "DrumVoice", "Dynamics", "FiguredBass", "FretBoards", "Global", "GrandStaff",
   "GregorianTranscriptionLyrics", "GregorianTranscriptionStaff", "GregorianTranscriptionVoice",
   "InternalGregorianStaff", "KievanStaff", "KievanVoice", "Lyrics", "MensuralStaff",
   "MensuralVoice", "NoteNames", "NullVoice", "OneStaff", "PetrucciStaff", "PetrucciVoice",
   "PianoStaff", "RhythmicStaff", "Score", "Staff", "StaffGroup", "StandaloneRhythmScore",
   "StandaloneRhythmStaff", "StandaloneRhythmVoice", "TabStaff", "TabVoice", "Timing",
   "VaticanaLyrics", "VaticanaStaff", "VaticanaVoice", "Voice"]

def headerVariables : List String :=
  ["arranger", "breakbefore", "composer", "copyright", "date", "dedication", "enteredby",
   "footer", "instrument", "lastupdated", "maintainer", "maintainerEmail", "maintainerWeb",
   "meter", "moreInfo", "mutopiacomposer", "mutopiainstrument", "mutopiaopus", "mutopiapoet",
   "mutopiatitle", "opus", "piece", "poet", "source", "style", "subsubtitle", "subtitle",
   "tagline", "texidoc", "title"]

def paperVariables : List String :=
  ["paper-height", "top-margin", "bottom-margin", "ragged-bottom", "ragged-last-bottom",
   "paper-width", "line-width", "left-margin", "right-margin", "check-consistency",
   "ragged-right", "ragged-last", "two-sided", "inner-margin", "outer-margin", "binding-offset",
   "horizontal-shift", "indent", "short-indent", "markup-system-spacing", "score-markup-spacing",
   "score-system-spacing", "system-system-spacing", "markup-markup-spacing",
   "last-bottom-spacing", "top-system-spacing", "top-markup-spacing", "max-systems-per-page",
   "min-systems-per-page", "system-count", "systems-per-page", "blank-after-score-page-force",
   "blank-last-page-force", "blank-page-force", "page-breaking",
   "page-breaking-system-system-spacing", "page-count", "auto-first-page-number",
   "first-page-number", "print-first-page-number", "print-page-number",
   "footnote-separator-markup", "page-spacing-weight", "print-all-headers",
   "system-separator-markup", "annotate-spacing", "bookTitleMarkup", "evenFooterMarkup",
   "evenHeaderMarkup", "oddFooterMarkup", "oddHeaderMarkup", "scoreTitleMarkup", "tocItemMarkup",
   "tocTitleMarkup", "fonts"]

def layoutVariables : List String :=
  ["indent", "line-width", "ragged-last", "ragged-right", "short-indent", "system-count"]

def repeatTypes : List String :=
  ["percent", "segno", "tremolo", "unfold", "volta"]

def clefs : List String :=
  ["alto", "altovarC", "baritone", "baritonevarC", "baritonevarF", "bass", "blackmensural-c1",
   "blackmensural-c2", "blackmensural-c3", "blackmensural-c4", "blackmensural-c5", "C", "F",
   "french", "G", "GG", "G2", "hufnagel-do-fa", "hufnagel-do1", "hufnagel-do2", "hufnagel-do3",
   "hufnagel-fa1", "hufnagel-fa2", "kievan-do", "medicaea-do1", "medicaea-do2", "medicaea-do3",
   "medicaea-fa1", "medicaea-fa2", "mensural-c1", "mensural-c2", "mensural-c3", "mensural-c4",
   "mensural-c5", "mensural-f", "mensural-g", "mezzosoprano", "moderntab", "neomensural-c1",
   "neomensural-c2", "neomensural-c3", "neomensural-c4", "neomensural-c5", "percussion",
   "petrucci-c1", "petrucci-c2", "petrucci-c3", "petrucci-c4", "petrucci-c5", "petrucci-f",
   "petrucci-f2", "petrucci-f3", "petrucci-f4", "petrucci-f5", "petrucci-g", "petrucci-g1",
   "petrucci-g2", "soprano", "subbass", "tab", "tenor", "tenorG", "tenorvarC", "treble",
   "varbaritone", "varC", "varpercussion", "vaticana-do1", "vaticana-do2", "vaticana-do3",
   "vaticana-fa1", "vaticana-fa2", "violin", "bass_8", "treble_8"]

def grobs : List String :=
  ["Accidental", "AccidentalCautionary", "AccidentalPlacement", "AccidentalSuggestion",
   "Ambitus", "AmbitusAccidental", "AmbitusLine", "AmbitusNoteHead", "Arpeggio", "BalloonText",
   "BarLine", "BarNumber", "BassFigure", "BassFigureAlignment", "BassFigureBracket",
   "BassFigureContinuation", "BassFigureLine", "Beam", "BendAfter", "BreakAlignGroup",
   "BreakAlignment", "BreathingSign", "ChordName", "Clef", "ClefModifier", "ClusterSpanner",
   "ClusterSpannerBeacon", "CombineTextScript", "CueClef", "CueEndClef", "Custos", "DotColumn",
   "Dots", "DoublePercentRepeat", "DoublePercentRepeatCounter", "DoubleRepeatSlash",
   "DynamicLineSpanner", "DynamicText", "DynamicTextSpanner", "Episema", "Fingering",
   "FingeringColumn", "Flag", "FootnoteItem", "FootnoteSpanner", "FretBoard", "Glissando",
   "GraceSpacing", "GridLine", "GridPoint", "Hairpin", "HorizontalBracket",
   "HorizontalBracketText", "InstrumentName", "InstrumentSwitch", "KeyCancellation",
   "KeySignature", "KievanLigature", "LaissezVibrerTie", "LaissezVibrerTieColumn",
   "LedgerLineSpanner", "LeftEdge", "LigatureBracket", "LyricExtender", "LyricHyphen",
   "LyricSpace", "LyricText", "MeasureCounter", "MeasureGrouping", "MelodyItem",
   "MensuralLigature", "MetronomeMark", "MultiMeasureRest", "MultiMeasureRestNumber",
   "MultiMeasureRestText", "NonMusicalPaperColumn", "NoteCollision", "NoteColumn", "NoteHead",
   "NoteName", "NoteSpacing", "OttavaBracket", "PaperColumn", "ParenthesesItem", "PercentRepeat",
   "PercentRepeatCounter", "PhrasingSlur", "PianoPedalBracket", "RehearsalMark", "RepeatSlash",
   "RepeatTie", "RepeatTieColumn", "Rest", "RestCollision", "Script", "ScriptColumn",
   "ScriptRow", "Slur", "SostenutoPedal", "SostenutoPedalLineSpanner", "SpacingSpanner",
   "SpanBar", "SpanBarStub", "StaffGrouper", "StaffSpacing", "StaffSymbol", "StanzaNumber",
   "Stem", "StemStub", "StemTremolo", "StringNumber", "StrokeFinger", "SustainPedal",
   "SustainPedalLineSpanner", "System", "SystemStartBar", "SystemStartBrace",
   "SystemStartBracket", "SystemStartSquare", "TabNoteHead", "TextScript", "TextSpanner", "Tie",
   "TieColumn", "TimeSignature", "TrillPitchAccidental", "TrillPitchGroup", "TrillPitchHead",
   "TrillSpanner", "TupletBracket", "TupletNumber", "UnaCordaPedal", "UnaCordaPedalLineSpanner",
   "VaticanaLigature", "VerticalAlignment", "VerticalAxisGroup", "VoiceFollower", "VoltaBracket",
   "VoltaBracketSpanner"]

def contextProperties : List String :=
  ["accidentalGrouping", "additionalPitchPrefix", "aDueText", "alignAboveContext",
   "alignBelowContext", "associatedVoice", "autoAccidentals", "autoBeamCheck", "autoBeaming",
   "autoCautionaries", "barAlways", "barCheckSynchronize", "barNumberFormatter",
   "barNumberVisibility", "baseMoment", "beamExceptions", "beamHalfMeasure", "beatStructure",
   "chordChanges", "chordNameExceptions", "chordNameFunction", "chordNameLowercaseMinor",
   "chordNameSeparator", "chordNoteNamer", "chordPrefixSpacer", "chordRootNamer", "clefGlyph",
   "clefPosition", "clefTransposition", "completionBusy", "connectArpeggios",
   "countPercentRepeats", "createKeyOnClefChange", "createSpacing", "crescendoSpanner",
   "crescendoText", "currentBarNumber", "decrescendoSpanner", "decrescendoText",
   "defaultBarType", "doubleRepeatType", "doubleSlurs", "drumPitchTable", "drumStyleTable",
   "explicitClefVisibility", "explicitKeySignatureVisibility", "extendersOverRests",
   "extraNatural", "figuredBassAlterationDirection", "figuredBassFormatter",
   "fingeringOrientations", "firstClef", "followVoice", "fontSize", "forbidBreak", "forceClef",
   "gridInterval", "hairpinToBarline", "harmonicAccidentals", "harmonicDots", "highStringOne",
   "ignoreBarChecks", "ignoreFiguredBassRest", "ignoreMelismata", "implicitBassFigures",
   "includeGraceNotes", "instrumentCueName", "instrumentEqualizer", "instrumentName",
   "instrumentTransposition", "internalBarNumber", "keepAliveInterfaces", "keyAlterationOrder",
   "keySignature", "lyricMelismaAlignment", "majorSevenSymbol", "markFormatter",
   "maximumFretStretch", "measureLength", "measurePosition", "melismaBusyProperties",
   "metronomeMarkFormatter", "middleCClefPosition", "middleCOffset", "middleCPosition",
   "midiBalance", "midiChannelMapping", "midiChorusLevel", "midiInstrument", "midiMaximumVolume",
   "midiMergeUnisons", "midiMinimumVolume", "midiPanPosition", "midiReverbLevel", "minimumFret",
   "minimumPageTurnLength", "minimumRepeatLengthForPageTurn", "minorChordModifier",
   "noChordSymbol", "noteToFretFunction", "ottavation", "output", "partCombineTextsOnNote",
   "pedalSostenutoStrings", "pedalSostenutoStyle", "pedalSustainStrings", "pedalSustainStyle",
   "pedalUnaCordaStrings", "pedalUnaCordaStyle", "predefinedDiagramTable",
   "printKeyCancellation", "printOctaveNames", "printPartCombineTexts",
   "proportionalNotationDuration", "rehearsalMark", "repeatCommands", "repeatCountVisibility",
   "restNumberThreshold", "shapeNoteStyles", "shortInstrumentName", "shortVocalName", "skipBars",
   "skipTypesetting", "slashChordSeparator", "soloIIText", "soloText", "squashedPosition",
   "staffLineLayoutFunction", "stanza", "stemLeftBeamCount", "stemRightBeamCount",
   "strictBeatBeaming", "stringNumberOrientations", "stringOneTopmost", "stringTunings",
   "strokeFingerOrientations", "subdivideBeams", "suggestAccidentals", "systemStartDelimiter",
   "systemStartDelimiterHierarchy", "tablatureFormat", "tempoHideNote", "tempoWholesPerMinute",
   "tieWaitForNote", "timeSignatureFraction", "timing", "tonic", "topLevelAlignment",
   "tupletFullLength", "tupletFullLengthNote", "tupletSpannerDuration", "useBassFigureExtenders",
   "vocalName", "voltaSpannerDuration", "whichBar"]

/-- How many arguments a markup command takes, if it is known. -/
def markupArguments? (name : String) : Option Nat :=
  [markupCommands0, markupCommands1, markupCommands2, markupCommands3, markupCommands4,
    markupCommands5].findIdx? (·.contains name)

def isMarkupCommand (name : String) : Bool :=
  (markupArguments? name).isSome || markupListCommands.contains name

end ScoreText.Lily.Words
