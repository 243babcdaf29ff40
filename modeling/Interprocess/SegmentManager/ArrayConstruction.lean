import Interprocess.SegmentManager.BlockLayout

namespace interprocess.segment_manager

open ipcdetail Memory

end interprocess.segment_manager
